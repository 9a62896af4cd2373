/-
  File:      Collation/Proofs/Comparator/Text.lean
  Subject:   The class that a generator writes, as a text.

  The code of the comparing method is written with open jumps, which are placed afterwards.  What
  comes out is a text in which every jump has the distance over the keys behind it.  Around it the
  class is the same for all layouts, but for its name and for the accessors in its pool.

  * `Generator.keysText` -- the code of all keys, with the instructions that it spells;
  * `Generator.runs_writeKeys`, `Generator.runs_placeAll` -- how it is written;
  * `Generator.covers_indices` -- no accessor is missing;
  * `Generator.classText` -- the class;
  * **`Generator.bytes_of_generate`** -- the bytes that are generated are those of the text.
-/
import Collation.Comparator.Generator
import Collation.Proofs.Assembler.Writing
import Collation.Proofs.Code.Spelling

namespace Collation

/-! ## 1. Steps of a session while a class is written -/

namespace Assembly

variable {α : Type} {x : Assembly α} {s t : Session} {a : α} {cause : Failure}

theorem Runs.lift (h : Runs x s a t) : Runs (liftM x : Generation α) s a t := by
  show Generation.ofAssembly x s = _
  unfold Generation.ofAssembly
  rw [h]

theorem Fails.lift (h : Fails x s cause) : Fails (liftM x : Generation α) s (.failed cause) := by
  obtain ⟨t, h⟩ := h
  refine ⟨t, ?_⟩
  show Generation.ofAssembly x s = _
  unfold Generation.ofAssembly
  rw [h]

end Assembly

namespace Generator

open Assembly

/-! ## 2. The code of keys -/

/-- The index by which columns of a kind are read; if the kind has no accessor, it is never
    written. -/
def Indices.method (pool : Indices) (kind : ColumnKind) : UInt16 := (pool.accessor? kind).getD 0

/-- The code that pushes a column of one of the records. -/
def valueCode (pool : Indices) (key : SortKey) (ofLeft : Bool) : List UInt8 :=
  operandCode pool key ofLeft ++ accessCode key.kind (pool.method key.kind)

/-- The code that compares both records under a key and stores the result. -/
def keyCode (pool : Indices) (key : SortKey) : List UInt8 :=
  valueCode pool key (!key.descending) ++ valueCode pool key key.descending ++
    [comparisonOpcode key.kind] ++ Encode.istore resultLocal

/-- Pushes a column of one of the records. -/
def valueText (pool : Indices) (key : SortKey) (ofLeft : Bool) : CodeText :=
  (if ofLeft then [(Encode.aload 0, .aload 0), (Encode.getfield pool.left, .getfield pool.left)]
    else [(Encode.aload 1, .aload 1)]) ++
    [(Encode.pushInt (Int32.ofNat key.column.toNat), .push (Int32.ofNat key.column.toNat)),
      (Encode.invokeinterface (pool.method key.kind) 2,
        .invokeinterface ⟨pool.method key.kind, some 2⟩)] ++
    (if key.kind = .int then [([Opcode.i2l], .i2l)] else [])

/-- The instruction that compares two values of a kind. -/
def comparison {τ φ μ : Type} : ColumnKind → Instr τ φ μ
  | .int | .long => .lcmp
  | .double => .dcmp (-1)

/-- Compares both records under a key and stores the result. -/
def keyText (pool : Indices) (key : SortKey) : CodeText :=
  valueText pool key (!key.descending) ++ valueText pool key key.descending ++
    [([comparisonOpcode key.kind], comparison key.kind), (Encode.istore resultLocal, .istore 2)]

theorem bytes_valueText (pool : Indices) (key : SortKey) (ofLeft : Bool) :
    CodeText.bytes (valueText pool key ofLeft) = valueCode pool key ofLeft := by
  unfold valueText valueCode operandCode accessCode
  cases ofLeft <;> cases key.kind <;> simp [CodeText.bytes]

theorem bytes_keyText (pool : Indices) (key : SortKey) :
    CodeText.bytes (keyText pool key) = keyCode pool key := by
  simp only [keyText, keyCode, CodeText.bytes_append, bytes_valueText]
  simp [CodeText.bytes]

/-- The jump out of the keys, over `distance` bytes of code behind it. -/
def exitText (stop distance : Nat) : CodeText :=
  [(Encode.iload resultLocal, .iload 2),
    (Opcode.ifne :: Word.bytes16 (UInt16.ofNat (3 + distance)), .ifZero .ne stop)]

/-- The code of all keys; its jumps lead to the offset `stop` and over all the code behind them. -/
def keysText (pool : Indices) (stop : Nat) : List SortKey → CodeText
  | [] => []
  | [key] => keyText pool key
  | key :: next :: rest =>
    keyText pool key ++ (exitText stop (CodeText.bytes (keysText pool stop (next :: rest))).length ++
      keysText pool stop (next :: rest))

/-- The bytes of all keys do not depend on where their end stands. -/
theorem bytes_keysText (pool : Indices) (stop : Nat) (keys : List SortKey) :
    CodeText.bytes (keysText pool stop keys) = CodeText.bytes (keysText pool 0 keys) := by
  induction keys with
  | nil => rfl
  | cons key rest ih =>
    cases rest with
    | nil => rfl
    | cons next rest =>
      simp only [keysText, CodeText.bytes_append, ih]
      simp only [exitText, CodeText.bytes, List.flatMap_cons, List.flatMap_nil]

/-- The bytes of all keys. -/
def keysBytes (pool : Indices) (keys : List SortKey) : List UInt8 :=
  CodeText.bytes (keysText pool 0 keys)

/-- The bytes of all keys before the jumps are placed. -/
def openBytes (pool : Indices) : List SortKey → List UInt8
  | [] => []
  | [key] => keyCode pool key
  | key :: next :: rest =>
    keyCode pool key ++ (Encode.iload resultLocal ++
      (Opcode.ifne :: Word.bytes16 0 ++ openBytes pool (next :: rest)))

theorem keysBytes_single (pool : Indices) (key : SortKey) :
    keysBytes pool [key] = keyCode pool key := bytes_keyText pool key

theorem keysBytes_cons (pool : Indices) (key next : SortKey) (rest : List SortKey) :
    keysBytes pool (key :: next :: rest) = keyCode pool key ++ (Encode.iload resultLocal ++
      (Opcode.ifne :: Word.bytes16 (UInt16.ofNat (3 + (keysBytes pool (next :: rest)).length)) ++
        keysBytes pool (next :: rest))) := by
  simp only [keysBytes, keysText, CodeText.bytes_append, bytes_keyText]
  simp [exitText, CodeText.bytes]

theorem length_openBytes (pool : Indices) (keys : List SortKey) :
    (openBytes pool keys).length = (keysBytes pool keys).length := by
  induction keys with
  | nil => rfl
  | cons key rest ih =>
    cases rest with
    | nil => rw [keysBytes_single, openBytes]
    | cons next rest =>
      rw [keysBytes_cons, openBytes]
      simp only [List.length_append, List.length_cons, Word.length_bytes16, ih]

/-- The jumps in the code of keys that begins at `offset`, if the code of the method begins at the
    position `base`. -/
def jumpSites (pool : Indices) (base : Nat) : Nat → List SortKey → List JumpSite
  | _, [] => []
  | _, [_] => []
  | offset, key :: next :: rest =>
    let site := offset + ((keyCode pool key).length + (Encode.iload resultLocal).length)
    ⟨site, base + site + 1⟩ :: jumpSites pool base (site + 3) (next :: rest)

/-- The jump over the most code, which is the first one, is within reach. -/
def Reaches (pool : Indices) : List SortKey → Prop
  | [] => True
  | _ :: rest => rest = [] ∨ 3 + (keysBytes pool rest).length ≤ maxJump

theorem Reaches.tail {pool : Indices} {key next : SortKey} {rest : List SortKey}
    (h : Reaches pool (key :: next :: rest)) : Reaches pool (next :: rest) := by
  cases rest with
  | nil => exact Or.inl rfl
  | cons third rest =>
    have hreach : 3 + (keysBytes pool (next :: third :: rest)).length ≤ maxJump :=
      h.resolve_left (by simp)
    rw [keysBytes_cons] at hreach
    simp only [List.length_append, List.length_cons] at hreach
    exact Or.inr (by omega)

theorem exists_of_not_reaches {pool : Indices} : ∀ {keys : List SortKey}, ¬ Reaches pool keys →
    ∃ key next rest, keys = key :: next :: rest ∧
      maxJump < 3 + (keysBytes pool (next :: rest)).length
  | [], h => absurd trivial h
  | [_], h => absurd (Or.inl rfl) h
  | key :: next :: rest, h =>
    ⟨key, next, rest, rfl, Nat.lt_of_not_le fun hle => h (Or.inr hle)⟩

/-! ## 3. Writing the keys -/

section Writing

variable {pool : Indices} {l : List UInt8} {count : Nat} {std : StandardPool} {m : MethodText}

/-- Each of the keys has an accessor for its kind. -/
def Indices.Covers (pool : Indices) (keys : List SortKey) : Prop :=
  ∀ key ∈ keys, (pool.accessor? key.kind).isSome = true

theorem Indices.accessor?_eq {kind : ColumnKind} (h : (pool.accessor? kind).isSome = true) :
    pool.accessor? kind = some (pool.method kind) := by
  obtain ⟨method, hmethod⟩ := Option.isSome_iff_exists.mp h
  unfold Indices.method
  rw [hmethod, Option.getD_some]

theorem Indices.runs_accessor {kind : ColumnKind} (h : (pool.accessor? kind).isSome = true)
    (s : Session) : Runs (pool.accessor kind) s (pool.method kind) s := by
  unfold Indices.accessor
  rw [Indices.accessor?_eq h]
  exact runs_pure _ _

theorem runs_writeValue {key : SortKey} (h : (pool.accessor? key.kind).isSome = true)
    (ofLeft : Bool) :
    Runs (writeValue pool key ofLeft) (.coding l count std m) ()
      (.coding l count std { m with code := m.code ++ valueCode pool key ofLeft }) := by
  unfold valueCode
  rw [← List.append_assoc]
  exact runs_emit.lift.bind ((Indices.runs_accessor h _).bind runs_emit.lift)

theorem runs_writeKey {key : SortKey} (h : (pool.accessor? key.kind).isSome = true) :
    Runs (writeKey pool key) (.coding l count std m) ()
      (.coding l count std { m with code := m.code ++ keyCode pool key }) := by
  have hcode : m.code ++ keyCode pool key =
      m.code ++ valueCode pool key (!key.descending) ++ valueCode pool key key.descending ++
        ([comparisonOpcode key.kind] ++ Encode.istore resultLocal) := by
    simp only [keyCode, List.append_assoc]
  rw [hcode]
  exact (runs_writeValue h _).bind ((runs_writeValue h _).bind runs_emit.lift)

/-- The code of all keys is written with open jumps. -/
theorem runs_writeKeys {keys : List SortKey} (h : pool.Covers keys) (exits : List JumpSite)
    (m : MethodText) :
    Runs (writeKeys pool exits keys) (.coding l count std m)
      ((jumpSites pool (l.length + 22) m.code.length keys).reverse ++ exits)
      (.coding l count std { m with code := m.code ++ openBytes pool keys }) := by
  induction keys generalizing exits m with
  | nil =>
    simp only [openBytes, List.append_nil]
    exact runs_pure _ _
  | cons key rest ih =>
    have hkey : (pool.accessor? key.kind).isSome = true := h key List.mem_cons_self
    cases rest with
    | nil => exact (runs_writeKey hkey).bind (runs_pure _ _)
    | cons next rest =>
      have hcode : m.code ++ openBytes pool (key :: next :: rest) =
          m.code ++ keyCode pool key ++ Encode.iload resultLocal ++
            (Opcode.ifne :: Word.bytes16 0) ++ openBytes pool (next :: rest) := by
        simp only [openBytes, List.append_assoc, List.cons_append]
      have hrest : pool.Covers (next :: rest) := fun k hk => h k (List.mem_cons_of_mem _ hk)
      rw [hcode, writeKeys]
      · refine (runs_writeKey hkey).bind (runs_emit.lift.bind (runs_jump.lift.bind ?_))
        refine (ih hrest _ _).trans ?_
        simp only [jumpSites, List.length_append, List.reverse_cons, List.append_assoc,
          List.cons_append, List.nil_append, List.length_cons, Word.length_bytes16, Nat.add_assoc]
      · simp

/-- Where the jumps out of the keys lead, if there are any. -/
def place (pool : Indices) (before : Nat) (other : Option Nat) : List SortKey → Option Nat
  | [] | [_] => other
  | key :: next :: rest => some (before + (keysBytes pool (key :: next :: rest)).length)

/-- Placing the jumps gives each its distance. -/
theorem runs_placeAll (keys : List SortKey) (before : List UInt8) (other : Option Nat)
    (m : MethodText) (hcode : m.code = before ++ openBytes pool keys) (h : Reaches pool keys) :
    Runs (placeAll other (jumpSites pool (l.length + 22) before.length keys))
      (.coding l count std m) (place pool before.length other keys)
      (.coding l count std { m with code := before ++ keysBytes pool keys }) := by
  induction keys generalizing before other m with
  | nil =>
    have hm : { m with code := before ++ keysBytes pool [] } = m := by
      rw [show before ++ keysBytes pool [] = m.code from hcode.symm]
    rw [hm]
    exact runs_pure _ _
  | cons key rest ih =>
    cases rest with
    | nil =>
      have hm : { m with code := before ++ keysBytes pool [key] } = m := by
        rw [keysBytes_single, show before ++ keyCode pool key = m.code from hcode.symm]
      rw [hm]
      exact runs_pure _ _
    | cons next rest =>
      have hreach : 3 + (openBytes pool (next :: rest)).length ≤ maxJump := by
        rw [length_openBytes]
        exact h.resolve_left (by simp)
      have hopen : m.code = (before ++ (keyCode pool key ++ Encode.iload resultLocal)) ++
          (Opcode.ifne :: Word.bytes16 0 ++ openBytes pool (next :: rest)) := by
        rw [hcode]
        simp only [openBytes, List.append_assoc, List.cons_append]
      have hlength : m.code.length =
          before.length + (keysBytes pool (key :: next :: rest)).length := by
        rw [hcode, List.length_append, length_openBytes]
      -- the jump of this key is placed; what is in front of the other keys is then longer
      have hsite : (before ++ (keyCode pool key ++ Encode.iload resultLocal)).length =
          before.length + ((keyCode pool key).length + (Encode.iload resultLocal).length) := by
        simp only [List.length_append]
      have hfront : ∀ w : UInt16, ((before ++ (keyCode pool key ++ Encode.iload resultLocal)) ++
          (Opcode.ifne :: Word.bytes16 w)).length =
          before.length + ((keyCode pool key).length + (Encode.iload resultLocal).length) + 3 := by
        intro w
        rw [List.length_append, hsite]
        rfl
      rw [jumpSites, placeAll, ← hsite]
      refine (runs_placeJump hopen hreach).bind ?_
      have hrest := ih ((before ++ (keyCode pool key ++ Encode.iload resultLocal)) ++
        (Opcode.ifne :: Word.bytes16 (UInt16.ofNat (3 + (openBytes pool (next :: rest)).length))))
        (some m.code.length)
        { m with code := (before ++ (keyCode pool key ++ Encode.iload resultLocal)) ++
          (Opcode.ifne :: Word.bytes16 (UInt16.ofNat (3 + (openBytes pool (next :: rest)).length)) ++
            openBytes pool (next :: rest)) }
        (by simp only [List.append_assoc, List.cons_append]) h.tail
      rw [hfront] at hrest
      rw [hsite]
      refine hrest.trans ?_
      have hplace : place pool (before.length + ((keyCode pool key).length +
          (Encode.iload resultLocal).length) + 3) (some m.code.length) (next :: rest) =
          some (before.length + (keysBytes pool (key :: next :: rest)).length) := by
        cases rest with
        | nil => exact congrArg some hlength
        | cons third rest =>
          rw [place, keysBytes_cons pool key]
          simp only [List.length_append, List.length_cons, Word.length_bytes16]
          congr 1
          omega
      rw [hplace, keysBytes_cons, length_openBytes]
      simp only [place, List.append_assoc, List.cons_append, keysBytes_cons]

/-- The first jump over too much code is refused. -/
theorem fails_placeAll {key next : SortKey} {rest : List SortKey} (before : List UInt8)
    {other : Option Nat}
    (hcode : m.code = before ++ openBytes pool (key :: next :: rest))
    (h : maxJump < 3 + (keysBytes pool (next :: rest)).length) :
    Fails (placeAll other (jumpSites pool (l.length + 22) before.length (key :: next :: rest)))
      (.coding l count std m)
      (.refused (.misuse (.codeTooLarge (3 + (keysBytes pool (next :: rest)).length)))) := by
  have hopen : m.code = (before ++ (keyCode pool key ++ Encode.iload resultLocal)) ++
      (Opcode.ifne :: Word.bytes16 0 ++ openBytes pool (next :: rest)) := by
    rw [hcode]
    simp only [openBytes, List.append_assoc, List.cons_append]
  have hsite : (before ++ (keyCode pool key ++ Encode.iload resultLocal)).length =
      before.length + ((keyCode pool key).length + (Encode.iload resultLocal).length) := by
    simp only [List.length_append]
  rw [← length_openBytes] at h ⊢
  rw [jumpSites, placeAll, ← hsite]
  exact (fails_placeJump hopen h).bind _

end Writing

/-! ## 4. The pool -/

/-- The constants of every comparator class, but for the accessors. -/
def baseConstants (className : String) : List Constant :=
  [.text objectClass, .cls 1, .text initName, .text initDescriptor, .nameAndType 3 4,
    .member .method 2 5, .text codeAttributeName,
    .text className, .cls 8, .text comparatorClass, .cls 10, .text recordClass, .cls 12,
    .text "left", .text recordDescriptor, .nameAndType 14 15, .member .field 9 16,
    .text setLeftName, .text setLeftDescriptor, .text compareName, .text compareDescriptor,
    .text stackMapAttributeName]

/-- The constants of one accessor, the first of them with the index `start`. -/
def accessorConstants (start : Nat) (kind : ColumnKind) : List Constant :=
  [.text kind.accessorName, .text kind.accessorDescriptor,
    .nameAndType (UInt16.ofNat start) (UInt16.ofNat (start + 1)),
    .member .interfaceMethod 13 (UInt16.ofNat (start + 2))]

/-- The constants of accessors, one after the other. -/
def accessorsFrom (start : Nat) : List ColumnKind → List Constant
  | [] => []
  | kind :: rest => accessorConstants start kind ++ accessorsFrom (start + 4) rest

/-- The indices of accessors, one after the other. -/
def indexedFrom (start : Nat) : List ColumnKind → List (ColumnKind × UInt16)
  | [] => []
  | kind :: rest => (kind, UInt16.ofNat (start + 3)) :: indexedFrom (start + 4) rest

/-- Each of the kinds has its index. -/
theorem isSome_lookup_indexedFrom (start : Nat) {kinds : List ColumnKind} {kind : ColumnKind}
    (h : kind ∈ kinds) : ((indexedFrom start kinds).lookup kind).isSome = true := by
  induction kinds generalizing start with
  | nil => exact absurd h List.not_mem_nil
  | cons first kinds ih =>
    rw [indexedFrom, List.lookup_cons]
    cases heq : kind == first with
    | true => rfl
    | false => exact ih (start + 4) ((List.mem_cons.mp h).resolve_left (ne_of_beq_false heq))

theorem length_accessorsFrom (start : Nat) (kinds : List ColumnKind) :
    (accessorsFrom start kinds).length = 4 * kinds.length := by
  induction kinds generalizing start with
  | nil => rfl
  | cons kind kinds ih =>
    simp only [accessorsFrom, accessorConstants, List.length_append, List.length_cons,
      List.length_nil, ih]
    omega

theorem writable_accessorName (kind : ColumnKind) :
    (Constant.text kind.accessorName).Writable ∧ (Constant.text kind.accessorDescriptor).Writable := by
  cases kind <;> exact ⟨by decide, by decide⟩

/-- The accessors are added behind the constants that are there. -/
theorem runs_addAccessors (kinds : List ColumnKind) (cs : List Constant)
    (std : Option StandardPool) (hroom : cs.length + 4 * kinds.length + 1 < poolLimit) :
    Runs (addAccessors 13 kinds) (.pooling cs std) (indexedFrom (cs.length + 1) kinds)
      (.pooling (cs ++ accessorsFrom (cs.length + 1) kinds) std) := by
  induction kinds generalizing cs with
  | nil =>
    simp only [accessorsFrom, List.append_nil]
    exact runs_pure _ _
  | cons kind kinds ih =>
    obtain ⟨hname, hdescriptor⟩ := writable_accessorName kind
    rw [List.length_cons] at hroom
    unfold addAccessors
    refine (runs_addConstant (by omega) hname).bind ?_
    refine (runs_addConstant (by simp; omega) hdescriptor).bind ?_
    refine (runs_addConstant (by simp; omega) (Constant.writable_nameAndType _ _)).bind ?_
    refine (runs_addConstant (by simp; omega) (Constant.writable_member _ _ _)).bind ?_
    have hrest := ih (cs ++ accessorConstants (cs.length + 1) kind)
      (by simp [accessorConstants]; omega)
    have hlength : (cs ++ accessorConstants (cs.length + 1) kind).length = cs.length + 4 := by
      simp [accessorConstants]
    rw [hlength] at hrest
    simp only [List.length_append, List.length_cons, List.length_nil, List.append_assoc,
      List.cons_append, List.nil_append, accessorsFrom, accessorConstants, indexedFrom,
      Nat.add_assoc] at hrest ⊢
    exact hrest.bind (runs_pure _ _)

/-- All constants of the class. -/
def constants (className : String) (layout : Layout) : List Constant :=
  baseConstants className ++ accessorsFrom 23 layout.kinds

/-- The indices that its code refers to. -/
def indices (layout : Layout) : Indices := ⟨17, 22, indexedFrom 23 layout.kinds⟩

theorem kind_mem_kinds {layout : Layout} {key : SortKey} (h : key ∈ layout.keys) :
    key.kind ∈ layout.kinds := by
  have hall : key.kind ∈ ColumnKind.all := by cases key.kind <;> decide
  exact List.mem_filter.mpr ⟨hall, List.any_eq_true.mpr ⟨key, h, by simp⟩⟩

theorem isSome_accessor? {layout : Layout} {kind : ColumnKind} (h : kind ∈ layout.kinds) :
    ((indices layout).accessor? kind).isSome = true :=
  isSome_lookup_indexedFrom 23 h

/-- **No accessor is missing** in the class of a layout. -/
theorem covers_indices (layout : Layout) : (indices layout).Covers layout.keys := fun _ hkey =>
  isSome_accessor? (kind_mem_kinds hkey)

/-! ## 5. The class -/

def initText : CodeText :=
  [(Encode.aload 0, .aload 0), (Encode.invokespecial 6, .invokespecial ⟨6, none⟩),
    ([Opcode.return_], .vreturn)]

def setLeftText : CodeText :=
  [(Encode.aload 0, .aload 0), (Encode.aload 1, .aload 1), (Encode.putfield 17, .putfield 17),
    ([Opcode.return_], .vreturn)]

/-- The end of the comparing method. -/
def resultText : CodeText := [(Encode.iload resultLocal, .iload 2), ([Opcode.ireturn], .ireturn)]

/-- The comparing method, for some keys. -/
def compareText (pool : Indices) (keys : List SortKey) : CodeText :=
  if keys.isEmpty then [(Encode.pushInt 0, .push 0), ([Opcode.ireturn], .ireturn)]
  else keysText pool (keysBytes pool keys).length keys ++ resultText

def initMethod : MethodText := ⟨.public, 3, 4, 1, 1, CodeText.bytes initText, none⟩

def setLeftMethod : MethodText := ⟨.public, 18, 19, 2, 2, CodeText.bytes setLeftText, none⟩

def compareMethod (pool : Indices) (keys : List SortKey) : MethodText :=
  ⟨.public, 20, 21, 4, 3, CodeText.bytes (compareText pool keys),
    (place pool 0 none keys).map fun stop => ⟨pool.stackMap, UInt16.ofNat stop⟩⟩

/-- The class for a layout. -/
def classText (className : String) (layout : Layout) : ClassText where
  version := .written
  constants := constants className layout
  flags := .publicFinal
  this := 9
  super := 2
  interfaces := [11]
  fields := [⟨.private, 14, 15⟩]
  codeAttribute := 7
  methods := [initMethod, setLeftMethod, compareMethod (indices layout) layout.keys]

section Class

variable {l : List UInt8} {count : Nat} {pool : Indices}

theorem runs_defineDefaultConstructor :
    Runs defineDefaultConstructor (.between l count standard) ()
      (.between (l ++ initMethod.bytes 7) count standard) := by
  unfold defineDefaultConstructor
  refine runs_standardPool.bind (runs_beginMethod.bind ?_)
  refine runs_emit.bind (runs_emit.bind (runs_emit.bind ?_))
  exact (runs_endCode (by decide) (by decide)).bind (runs_writeAfter.bind runs_endMethod)

theorem runs_writeSetLeft (hleft : pool.left = 17) :
    Runs (writeSetLeft pool 18 19) (.between l count standard) ()
      (.between (l ++ setLeftMethod.bytes 7) count standard) := by
  unfold writeSetLeft
  rw [hleft]
  refine runs_beginMethod.bind (runs_emit.bind ?_)
  exact (runs_endCode (by decide) (by decide)).bind (runs_writeAfter.bind runs_endMethod)

/-- How many bytes push the column of a key. -/
def pushSize (key : SortKey) : Nat :=
  if key.column.toNat ≤ 5 then 1 else if key.column.toNat ≤ 127 then 2 else 3

/-- How many bytes the code of a key has. -/
def keySize (key : SortKey) : Nat :=
  17 + 2 * pushSize key + (if key.kind = .int then 2 else 0)

theorem length_pushInt (key : SortKey) :
    (Encode.pushInt (Int32.ofNat key.column.toNat)).length = pushSize key := by
  have hcolumn := key.column.toNat_lt
  have hvalue : (Int32.ofNat key.column.toNat).toInt = key.column.toNat := by
    rw [Int32.toInt_ofNat_of_lt (by omega)]
  have hshort : -1 ≤ Int32.ofNat key.column.toNat ∧ Int32.ofNat key.column.toNat ≤ 5 ↔
      key.column.toNat ≤ 5 := by
    rw [Int32.le_iff_toInt_le, Int32.le_iff_toInt_le, hvalue, show (-1 : Int32).toInt = -1 from rfl,
      show (5 : Int32).toInt = 5 from rfl]
    omega
  have hbyte : 0 ≤ Int32.ofNat key.column.toNat ∧ Int32.ofNat key.column.toNat ≤ 127 ↔
      key.column.toNat ≤ 127 := by
    rw [Int32.le_iff_toInt_le, Int32.le_iff_toInt_le, hvalue, show (0 : Int32).toInt = 0 from rfl,
      show (127 : Int32).toInt = 127 from rfl]
    omega
  unfold Encode.pushInt pushSize
  simp only [hshort, hbyte]
  split
  · rfl
  · split <;> rfl

theorem length_valueCode (pool : Indices) (key : SortKey) (ofLeft : Bool) :
    (valueCode pool key ofLeft).length =
      (if ofLeft then 9 else 6) + pushSize key + (if key.kind = .int then 1 else 0) := by
  have hcall : ∀ i, (Encode.invokeinterface i 2).length = 5 := fun _ => rfl
  have hget : (Encode.getfield pool.left).length = 3 := rfl
  have h0 : (Encode.aload 0).length = 1 := rfl
  have h1 : (Encode.aload 1).length = 1 := rfl
  unfold valueCode operandCode accessCode
  cases ofLeft <;> cases key.kind <;> simp [hcall, hget, h0, h1, length_pushInt] <;> omega

/-- **The length of the code of a key** does not depend on the direction. -/
theorem length_keyCode (pool : Indices) (key : SortKey) : (keyCode pool key).length = keySize key := by
  have hs : (Encode.istore resultLocal).length = 1 := rfl
  unfold keyCode keySize
  simp only [List.length_append, length_valueCode, hs, List.length_cons, List.length_nil]
  cases key.descending <;> cases key.kind <;> simp <;> omega

theorem keySize_bounds (key : SortKey) : 19 ≤ keySize key ∧ keySize key ≤ 25 := by
  have hpush : 1 ≤ pushSize key ∧ pushSize key ≤ 3 := by
    unfold pushSize
    split
    · omega
    · split <;> omega
  unfold keySize
  split <;> omega

/-- Code whose jumps are within reach is not too long. -/
theorem length_keysBytes_lt {keys : List SortKey} (h : Reaches pool keys) :
    (keysBytes pool keys).length < 32800 := by
  have hm : maxJump = 32767 := rfl
  have hi : (Encode.iload resultLocal).length = 1 := rfl
  cases keys with
  | nil => exact Nat.zero_lt_succ _
  | cons key rest =>
    have hk := (keySize_bounds key).2
    cases rest with
    | nil =>
      rw [keysBytes_single, length_keyCode]
      omega
    | cons next rest =>
      have hreach := h.resolve_left (by simp)
      rw [keysBytes_cons]
      simp only [List.length_append, List.length_cons, Word.length_bytes16, hi, length_keyCode]
      omega

theorem bytes_compareText {keys : List SortKey} (hne : keys.isEmpty = false) :
    CodeText.bytes (compareText pool keys) =
      keysBytes pool keys ++ (Encode.iload resultLocal ++ [Opcode.ireturn]) := by
  rw [compareText, if_neg (by simp [hne]), CodeText.bytes_append, bytes_keysText]
  rfl

theorem runs_writeStackMap {std : StandardPool} {m : MethodText} (stop : Option Nat)
    (hframe : m.frame = stop.map fun s => ⟨pool.stackMap, UInt16.ofNat s⟩) :
    Runs (writeStackMap pool stop) (.coded l count std m []) ()
      (.coded l count std m (Word.bytes16 0 ++ m.attributes)) := by
  unfold MethodText.attributes
  cases stop with
  | none =>
    rw [hframe]
    exact runs_writeAfter
  | some s =>
    rw [hframe]
    refine runs_writeAfter.bind (runs_appendIntFrame.trans ?_)
    simp only [List.nil_append, List.append_assoc, Option.map_some]

theorem runs_writeCompare {keys : List SortKey} (hcovers : pool.Covers keys)
    (h : Reaches pool keys) :
    Runs (writeCompare pool keys 20 21) (.between l count standard) ()
      (.between (l ++ (compareMethod pool keys).bytes 7) count standard) := by
  unfold writeCompare
  refine runs_beginMethod.lift.bind ?_
  cases hne : keys.isEmpty with
  | true =>
    obtain rfl : keys = [] := List.isEmpty_iff.mp hne
    refine runs_emit.lift.bind ((runs_endCode (by decide) (by decide)).lift.bind ?_)
    exact runs_writeAfter.lift.bind runs_endMethod.lift
  | false =>
    have hlength := length_keysBytes_lt h
    have hlimit : codeLimit = 65536 := rfl
    have hi : (Encode.iload resultLocal).length = 1 := rfl
    have hcode : (compareMethod pool keys).code =
        [] ++ keysBytes pool keys ++ (Encode.iload resultLocal ++ [Opcode.ireturn]) :=
      bytes_compareText hne
    have hsize : (compareMethod pool keys).code.length = (keysBytes pool keys).length + 2 := by
      rw [hcode]
      simp only [List.length_append, List.length_cons, List.length_nil, hi]
      omega
    -- the session does not know yet that the method will have a stack map
    have hsession : Session.coding l count standard ⟨.public, 20, 21, 4, 3,
        [] ++ keysBytes pool keys ++ (Encode.iload resultLocal ++ [Opcode.ireturn]), none⟩ =
        Session.coding l count standard (compareMethod pool keys) := by
      rw [← hcode]
      rfl
    have hend : Runs endCode (.coding l count standard (compareMethod pool keys)) ()
        (.coded l count standard (compareMethod pool keys) []) :=
      runs_endCode (by omega) (by omega)
    refine (runs_writeKeys hcovers [] _).bind ?_
    rw [List.append_nil, List.reverse_reverse]
    refine (runs_placeAll keys [] none _ rfl h).lift.bind (runs_emit.lift.bind ?_)
    rw [hsession]
    exact hend.lift.bind ((runs_writeStackMap _ rfl).lift.bind runs_endMethod.lift)

/-- A comparing method with a jump over too much code is refused. -/
theorem fails_writeCompare {key next : SortKey} {rest : List SortKey}
    (hcovers : pool.Covers (key :: next :: rest))
    (h : maxJump < 3 + (keysBytes pool (next :: rest)).length) :
    Fails (writeCompare pool (key :: next :: rest) 20 21) (.between l count standard)
      (.failed (.refused (.misuse
        (.codeTooLarge (3 + (keysBytes pool (next :: rest)).length))))) := by
  unfold writeCompare
  refine runs_beginMethod.lift.bind_fails ((runs_writeKeys hcovers [] _).bind_fails ?_)
  rw [List.append_nil, List.reverse_reverse]
  exact (fails_placeAll [] rfl h).lift.bind _

end Class

/-! ## 6. Generating -/

/-- The class name can be written. -/
def NameFits (className : String) : Prop := (ModifiedUtf8.encode className).length ≤ 65535

theorem length_kinds_le (layout : Layout) : layout.kinds.length ≤ 3 :=
  List.length_filter_le _ _

theorem writable_text {className : String} (h : NameFits className) :
    (Constant.text className).Writable := by
  have hbytes : (Constant.text className).bytes = .ok (ConstantKind.text.tag ::
      Word.bytes16 (UInt16.ofNat (ModifiedUtf8.encode className).length) ++
        ModifiedUtf8.encode className) :=
    if_neg (Nat.not_lt.mpr h)
  unfold Constant.Writable Constant.written
  rw [hbytes]

theorem runs_addClass {cs : List Constant} {std : Option StandardPool} {name : String}
    (hroom : cs.length + 2 < poolLimit) (hname : (Constant.text name).Writable) :
    Runs (addClass name) (.pooling cs std) (UInt16.ofNat (cs.length + 2))
      (.pooling (cs ++ [Constant.text name, .cls (UInt16.ofNat (cs.length + 1))]) std) := by
  unfold addClass
  refine (runs_addConstant (by omega) hname).bind ?_
  refine (runs_addConstant (by simpa using hroom) (Constant.writable_cls _)).trans ?_
  simp only [List.length_append, List.length_cons, List.length_nil, List.append_assoc,
    List.cons_append, List.nil_append]

/-- The bytes in front of the comparing method. -/
def frontBytes (className : String) (layout : Layout) : List UInt8 :=
  (classText className layout).front ++ (initMethod.bytes 7 ++ setLeftMethod.bytes 7)

/-- Up to the comparing method nothing can fail but the name. -/
theorem writeClass_eq {className : String} (layout : Layout) (hname : NameFits className) :
    writeClass className layout .empty =
      (do
        writeCompare (indices layout) layout.keys 20 21
        declareCount 0 : Generation Unit)
      (.between (frontBytes className layout) ((constants className layout).length + 1) standard) := by
  have hkinds := length_kinds_le layout
  have hlimit : poolLimit = 65535 := rfl
  unfold writeClass
  refine (runs_setupPool.lift.bind_eq _).trans ?_
  refine ((runs_addClass (by decide) (writable_text hname)).lift.bind_eq _).trans ?_
  refine ((runs_addClass (by simp [setupConstants, hlimit]) (by decide)).lift.bind_eq _).trans ?_
  refine ((runs_addClass (by simp [setupConstants, hlimit]) (by decide)).lift.bind_eq _).trans ?_
  refine ((runs_addConstant (by simp [setupConstants, hlimit]) (by decide)).lift.bind_eq _).trans ?_
  refine ((runs_addConstant (by simp [setupConstants, hlimit]) (by decide)).lift.bind_eq _).trans ?_
  refine ((runs_addConstant (by simp [setupConstants, hlimit])
    (Constant.writable_nameAndType _ _)).lift.bind_eq _).trans ?_
  refine ((runs_addConstant (by simp [setupConstants, hlimit])
    (Constant.writable_member _ _ _)).lift.bind_eq _).trans ?_
  -- the names and descriptors of both methods, and the name of stack maps
  iterate 5
    refine ((runs_addConstant (by simp [setupConstants, hlimit]) (by decide)).lift.bind_eq _).trans ?_
  have haccessors := runs_addAccessors layout.kinds (baseConstants className)
    (some standard) (by simp [baseConstants, hlimit]; omega)
  refine (haccessors.lift.bind_eq _).trans ?_
  refine (runs_finishPool.lift.bind_eq _).trans ((runs_defineClass.lift.bind_eq _).trans ?_)
  refine ((runs_declareInterfaces (by simp)).lift.bind_eq _).trans ?_
  refine (runs_writeBetween.lift.bind_eq _).trans ((runs_writeBetween.lift.bind_eq _).trans ?_)
  refine (runs_writeBetween.lift.bind_eq _).trans ?_
  refine (runs_defineDefaultConstructor.lift.bind_eq _).trans ?_
  refine ((runs_writeSetLeft rfl).lift.bind_eq _).trans ?_
  have hbytes : headerBytes ++ (Word.bytes16 (UInt16.ofNat ((constants className layout).length + 1)) ++
      (constants className layout).flatMap Constant.written) ++
      (Word.bytes16 ClassFlags.publicFinal.bits ++ Word.bytes16 9 ++ Word.bytes16 2) ++
      (Word.bytes16 1 ++ [11].flatMap Word.bytes16) ++ Word.bytes16 1 ++
      (Word.bytes16 FieldFlags.private.bits ++ Word.bytes16 14 ++ Word.bytes16 15 ++
        Word.bytes16 0) ++ Word.bytes16 3 ++ initMethod.bytes 7 ++ setLeftMethod.bytes 7 =
      frontBytes className layout := by
    simp only [frontBytes, ClassText.front, classText, headerBytes, List.append_assoc,
      List.flatMap_cons, List.flatMap_nil, List.append_nil, FieldText.bytes]
    rfl
  rw [← hbytes]
  rfl

/-- A name that cannot be written is refused. -/
theorem fails_writeClass_name {className : String} (layout : Layout) (h : ¬ NameFits className) :
    Fails (writeClass className layout) .empty
      (.failed (.refused (.textTooLong (ModifiedUtf8.encode className).length))) := by
  have hbytes : (Constant.text className).bytes =
      .error (.textTooLong (ModifiedUtf8.encode className).length) :=
    if_pos (Nat.lt_of_not_le h)
  unfold writeClass
  have hadd : Fails (addClass className) (.pooling setupConstants (some standard))
      (.refused (.textTooLong (ModifiedUtf8.encode className).length)) :=
    (fails_addConstant (by decide) hbytes).bind _
  exact runs_setupPool.lift.bind_fails (hadd.lift.bind _)

/-- A first jump that goes too far is refused, with its distance. -/
theorem fails_writeClass_far {className : String} {layout : Layout} (hname : NameFits className)
    {key next : SortKey} {rest : List SortKey} (hkeys : layout.keys = key :: next :: rest)
    (hfar : maxJump < 3 + (keysBytes (indices layout) (next :: rest)).length) :
    Fails (writeClass className layout) .empty (.failed (.refused (.misuse
      (.codeTooLarge (3 + (keysBytes (indices layout) (next :: rest)).length))))) := by
  have hcovers := covers_indices layout
  have hfails : Fails (writeCompare (indices layout) layout.keys 20 21)
      (.between (frontBytes className layout) ((constants className layout).length + 1) standard)
      (.failed (.refused (.misuse
        (.codeTooLarge (3 + (keysBytes (indices layout) (next :: rest)).length))))) := by
    rw [hkeys] at hcovers ⊢
    exact fails_writeCompare hcovers hfar
  obtain ⟨t, ht⟩ := hfails.bind fun _ => (declareCount 0 : Generation Unit)
  exact ⟨t, (writeClass_eq layout hname).trans ht⟩

/-- **What is written for a layout is its class**, if the name can be written and the first jump is
    within reach. -/
theorem runs_writeClass {className : String} {layout : Layout} (hname : NameFits className)
    (hreach : Reaches (indices layout) layout.keys) :
    Runs (writeClass className layout) .empty () (.between (classText className layout).bytes
      ((constants className layout).length + 1) standard) := by
  refine (writeClass_eq layout hname).trans ?_
  refine ((runs_writeCompare (covers_indices layout) hreach).bind runs_writeBetween.lift).trans ?_
  have hbytes : frontBytes className layout ++
      (compareMethod (indices layout) layout.keys).bytes 7 ++ Word.bytes16 0 =
      (classText className layout).bytes := by
    simp only [frontBytes, ClassText.bytes, classText, List.flatMap_cons, List.flatMap_nil,
      List.append_assoc, List.append_nil]
  rw [hbytes]

/-- A layout whose columns are in range is written into an empty session. -/
theorem generate_eq (g : Generator) {layout : Layout}
    (hcolumns : ∀ key ∈ layout.keys, key.column.toNat ≤ maxColumn) :
    (g.generate layout).1 = match writeClass g.nextName layout .empty with
      | .ok _ s => .ok s.bytes
      | .error fault _ => .error fault := by
  have hfind : layout.keys.find? (fun key => maxColumn < key.column.toNat) = none := by
    rw [List.find?_eq_none]
    intro key hkey
    simpa using hcolumns key hkey
  have hclear : ∀ x : Generation Unit, (liftM clear *> x) g.session = x .empty := fun _ => rfl
  unfold generate
  rw [hfind]
  dsimp only
  rw [hclear]
  generalize writeClass g.nextName layout .empty = written
  cases written <;> rfl

/-- A layout is generated for if its columns are in range, the name can be written and the first
    jump is within reach. -/
theorem generate_ok {g : Generator} {layout : Layout}
    (hcolumns : ∀ key ∈ layout.keys, key.column.toNat ≤ maxColumn) (hname : NameFits g.nextName)
    (hreach : Reaches (indices layout) layout.keys) :
    (g.generate layout).1 = .ok (classText g.nextName layout).bytes := by
  rw [generate_eq g hcolumns, runs_writeClass hname hreach]
  exact congrArg Except.ok rfl

/-- **What a generator generates**: if no column is out of range, the class of the layout, unless
    its name is too long to be written or its first jump goes too far. -/
theorem bytes_of_generate {g : Generator} {layout : Layout} {bytes : List UInt8}
    (h : (g.generate layout).1 = .ok bytes) :
    (∀ key ∈ layout.keys, key.column.toNat ≤ maxColumn) ∧ NameFits g.nextName ∧
      Reaches (indices layout) layout.keys ∧ bytes = (classText g.nextName layout).bytes := by
  have hcolumns : ∀ key ∈ layout.keys, key.column.toNat ≤ maxColumn := by
    unfold generate at h
    split at h
    · cases h
    · rename_i hfind
      intro key hkey
      simpa using List.find?_eq_none.mp hfind key hkey
  rw [generate_eq g hcolumns] at h
  by_cases hname : NameFits g.nextName
  · by_cases hreach : Reaches (indices layout) layout.keys
    · rw [runs_writeClass hname hreach] at h
      cases h
      exact ⟨hcolumns, hname, hreach, rfl⟩
    · obtain ⟨key, next, rest, hkeys, hfar⟩ := exists_of_not_reaches hreach
      obtain ⟨t, ht⟩ := fails_writeClass_far hname hkeys hfar
      rw [ht] at h
      cases h
  · obtain ⟨t, ht⟩ := fails_writeClass_name layout hname
    rw [ht] at h
    cases h

end Generator

end Collation
