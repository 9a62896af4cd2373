/-
  File:      Collation/Proofs/ClassFile/Reading.lean
  Subject:   What a read that succeeded has read.

  * `Reader.exists_of_bind` -- a read in two parts that succeeds did so in both, one after the other;
  * `Reader.iterate_keeps` -- what every read keeps, reads one after another keep;
  * `Reader.exists_of_mem_times` -- each entry of a table was read somewhere;
  * `ClassFile.type_of_mem_fields`, `ClassFile.type_of_mem_methods` -- the type of every field and
    of every method of a class that was read was read from a text;
  * `ClassFile.length_code_of_mem_methods` -- the code of every method is shorter than 65536 bytes.
-/
import Collation.ClassFile.Parse

namespace Collation

/-! ## 1. Reads -/

namespace Reader

variable {α β : Type}

/-- The two parts of a read that succeeds, one after the other. -/
theorem exists_of_bind {r : Reader α} {k : α → Reader β} {c c' : Cursor} {b : β}
    (h : (r >>= k) c = .ok (b, c')) : ∃ a c₁, r c = .ok (a, c₁) ∧ k a c₁ = .ok (b, c') := by
  change StateT.bind r k c = _ at h
  unfold StateT.bind at h
  cases hr : r c with
  | error e =>
    rw [hr] at h
    cases h
  | ok p =>
    obtain ⟨a, c₁⟩ := p
    rw [hr] at h
    exact ⟨a, c₁, rfl, h⟩

/-- **What every read keeps, reads one after another keep.** -/
theorem iterate_keeps {step : β → Reader β} (P : β → Prop)
    (hstep : ∀ {b b' : β} {c c' : Cursor}, P b → step b c = .ok (b', c') → P b') {n : Nat} {b b' : β}
    {c c' : Cursor} (hb : P b) (h : iterate step n b c = .ok (b', c')) : P b' := by
  induction n generalizing b c with
  | zero =>
    unfold iterate at h
    cases h
    exact hb
  | succ n ih =>
    unfold iterate at h
    split at h
    · rename_i b₁ c₁ hone
      exact ih (hstep hb hone) h
    · cases h

/-- **Each entry of a table was read somewhere.** -/
theorem exists_of_mem_times {r : Reader α} {n : Nat} {l : List α} {c c' : Cursor}
    (h : times n r c = .ok (l, c')) {a : α} (ha : a ∈ l) : ∃ c₁ c₂, r c₁ = .ok (a, c₂) := by
  obtain ⟨all, c₁, hi, hp⟩ := exists_of_bind h
  cases hp
  refine iterate_keeps (fun acc : Array α => ∀ a ∈ acc, ∃ c₁ c₂, r c₁ = .ok (a, c₂)) ?_ (by simp) hi a
    (Array.mem_toList_iff.mp ha)
  intro acc acc' c c' hacc hone a ha
  obtain ⟨x, c₂, hx, hp⟩ := exists_of_bind hone
  cases hp
  rcases Array.mem_push.mp ha with ha | rfl
  · exact hacc a ha
  · exact ⟨c, _, hx⟩

theorem size_of_iterate {r : Reader α} {n : Nat} {acc all : Array α} {c c' : Cursor}
    (h : iterate (fun acc : Array α => do return acc.push (← r)) n acc c = .ok (all, c')) :
    all.size = acc.size + n := by
  induction n generalizing acc c with
  | zero =>
    unfold iterate at h
    cases h
    rfl
  | succ n ih =>
    unfold iterate at h
    split at h
    · rename_i acc₁ c₁ hone
      obtain ⟨a, c₂, -, hp⟩ := exists_of_bind hone
      cases hp
      rw [ih h, Array.size_push]
      omega
    · cases h

theorem length_of_times {r : Reader α} {n : Nat} {l : List α} {c c' : Cursor}
    (h : times n r c = .ok (l, c')) : l.length = n := by
  obtain ⟨all, c₁, hi, hp⟩ := exists_of_bind h
  cases hp
  have hsize := size_of_iterate hi
  simpa using hsize

theorem length_of_takeExactly {n : Nat} {acc l taken rest : List α}
    (h : takeExactly n acc l = some (taken, rest)) : taken.length = acc.length + n := by
  fun_induction takeExactly n acc l with
  | case1 acc rest =>
    cases h
    simp
  | case2 => cases h
  | case3 acc n a rest ih =>
    rw [ih h, List.length_cons]
    omega

theorem length_of_bytes {n : Nat} {bs : List UInt8} {c c' : Cursor}
    (h : bytes n c = .ok (bs, c')) : bs.length = n := by
  unfold bytes at h
  split at h
  · rename_i taken rest htaken
    cases h
    simpa using length_of_takeExactly htaken
  · cases h

end Reader

/-! ## 2. Members -/

namespace ClassFile

open Reader

theorem type_of_readField {pool : Pool} {d : FieldDecl} {c c' : Cursor}
    (h : readField pool c = .ok (d, c')) : ∃ text, FieldType.parse text = .ok d.type := by
  unfold readField at h
  obtain ⟨flags, c₁, _, h⟩ := exists_of_bind h
  obtain ⟨name, c₂, _, h⟩ := exists_of_bind h
  obtain ⟨offset, c₃, _, h⟩ := exists_of_bind h
  obtain ⟨descriptor, c₄, _, h⟩ := exists_of_bind h
  cases ht : FieldType.parse descriptor with
  | error e =>
    rw [ht] at h
    cases h
  | ok type =>
    rw [ht] at h
    obtain ⟨_, c₅, _, h⟩ := exists_of_bind h
    cases h
    exact ⟨descriptor, ht⟩

/-- **What a method was read from**: it keeps the text of its type, and its code is an attribute. -/
theorem parts_of_readMethod {pool : Pool} {d : MethodDecl} {c c' : Cursor}
    (h : readMethod pool c = .ok (d, c')) :
    MethodType.parse d.descriptor = .ok d.type ∧
      ∃ signature c₁ c₂, readAttributes pool signature codeAttributeName (readCode pool signature) c₁ =
        .ok (d.code, c₂) := by
  unfold readMethod at h
  obtain ⟨start, c₁, _, h⟩ := exists_of_bind h
  obtain ⟨word, c₂, _, h⟩ := exists_of_bind h
  obtain ⟨name, c₃, _, h⟩ := exists_of_bind h
  obtain ⟨offset, c₄, _, h⟩ := exists_of_bind h
  obtain ⟨descriptor, c₅, _, h⟩ := exists_of_bind h
  cases ht : MethodType.parse descriptor with
  | error e =>
    rw [ht] at h
    cases h
  | ok type =>
    rw [ht] at h
    obtain ⟨code, c₆, hcode, h⟩ := exists_of_bind h
    split at h
    · cases h
    · cases h
      exact ⟨ht, _, _, _, hcode⟩

/-- The pool, the fields and the methods of a class that was read are what was read for them. -/
theorem parts_of_read {file : ClassFile} {c c' : Cursor} (h : read c = .ok (file, c')) :
    (∃ c₁ c₂, readPool c₁ = .ok (file.pool, c₂)) ∧
      (∃ n c₁ c₂, times n (readField file.pool) c₁ = .ok (file.fields, c₂)) ∧
      ∃ n c₁ c₂, times n (readMethod file.pool) c₁ = .ok (file.methods, c₂) := by
  unfold read at h
  obtain ⟨word, _, _, h⟩ := exists_of_bind h
  split at h
  · cases h
  · obtain ⟨version, _, _, h⟩ := exists_of_bind h
    obtain ⟨pool, _, hpool, h⟩ := exists_of_bind h
    obtain ⟨flags, _, _, h⟩ := exists_of_bind h
    obtain ⟨thisClass, _, _, h⟩ := exists_of_bind h
    obtain ⟨superClass, _, _, h⟩ := exists_of_bind h
    obtain ⟨interfaceCount, _, _, h⟩ := exists_of_bind h
    obtain ⟨interfaces, _, _, h⟩ := exists_of_bind h
    obtain ⟨fieldCount, _, _, h⟩ := exists_of_bind h
    obtain ⟨fields, _, hfields, h⟩ := exists_of_bind h
    obtain ⟨methodCount, _, _, h⟩ := exists_of_bind h
    obtain ⟨methods, _, hmethods, h⟩ := exists_of_bind h
    obtain ⟨_, _, _, h⟩ := exists_of_bind h
    cases h
    exact ⟨⟨_, _, hpool⟩, ⟨_, _, _, hfields⟩, _, _, _, hmethods⟩

theorem read_of_parse {input : List UInt8} {file : ClassFile} (h : parse input = .ok file) :
    ∃ offset, read (.start input) = .ok (file, ⟨offset, []⟩) := by
  unfold parse at h
  split at h
  · cases h
  · rename_i file' offset hr
    cases h
    exact ⟨offset, hr⟩
  · cases h

/-- **The type of every field was read from a text.** -/
theorem type_of_mem_fields {input : List UInt8} {file : ClassFile} (h : parse input = .ok file)
    {d : FieldDecl} (hd : d ∈ file.fields) : ∃ text, FieldType.parse text = .ok d.type := by
  obtain ⟨offset, hr⟩ := read_of_parse h
  obtain ⟨-, ⟨n, c₁, c₂, hf⟩, -⟩ := parts_of_read hr
  obtain ⟨c₃, c₄, hone⟩ := exists_of_mem_times hf hd
  exact type_of_readField hone

/-- **The type of every method was read from the text that it keeps.** -/
theorem type_of_mem_methods {input : List UInt8} {file : ClassFile} (h : parse input = .ok file)
    {d : MethodDecl} (hd : d ∈ file.methods) : MethodType.parse d.descriptor = .ok d.type := by
  obtain ⟨offset, hr⟩ := read_of_parse h
  obtain ⟨-, -, n, c₁, c₂, hm⟩ := parts_of_read hr
  obtain ⟨c₃, c₄, hone⟩ := exists_of_mem_times hm hd
  exact (parts_of_readMethod hone).1

/-! ## 3. The code of methods -/

theorem exists_of_readMeasured {α : Type} {body : Reader α} {a : α} {c c' : Cursor}
    (h : readMeasured body c = .ok (a, c')) : ∃ c₁ c₂, body c₁ = .ok (a, c₂) := by
  unfold readMeasured at h
  obtain ⟨offset, _, _, h⟩ := exists_of_bind h
  obtain ⟨declared, _, _, h⟩ := exists_of_bind h
  obtain ⟨start, c₁, _, h⟩ := exists_of_bind h
  obtain ⟨a', c₂, hbody, h⟩ := exists_of_bind h
  obtain ⟨stop, _, _, h⟩ := exists_of_bind h
  split at h
  · cases h
    exact ⟨_, _, hbody⟩
  · cases h

/-- An attribute that was found is one that the body of a read gave. -/
theorem exists_of_readAttributes {α : Type} {pool : Pool} {owner wanted : String} {body : Reader α}
    {a : α} {c c' : Cursor} (h : readAttributes pool owner wanted body c = .ok (some a, c')) :
    ∃ c₁ c₂, body c₁ = .ok (a, c₂) := by
  unfold readAttributes at h
  obtain ⟨count, c₁, _, h⟩ := exists_of_bind h
  refine iterate_keeps (fun found => ∀ a ∈ found, ∃ c₁ c₂, body c₁ = .ok (a, c₂)) ?_ (by simp) h a rfl
  -- one more attribute leaves what was found, or it is found itself
  intro found found' c c' hfound hone
  unfold readOnce at hone
  obtain ⟨offset, _, _, hone⟩ := exists_of_bind hone
  obtain ⟨name, _, _, hone⟩ := exists_of_bind hone
  split at hone
  · split at hone
    · cases hone
    · obtain ⟨a', c₁, hbody, hone⟩ := exists_of_bind hone
      cases hone
      rintro a ⟨⟩
      exact ⟨_, _, hbody⟩
  · obtain ⟨_, _, _, hone⟩ := exists_of_bind hone
    cases hone
    exact hfound

theorem length_of_readCode {pool : Pool} {signature : String} {code : CodeBody} {c c' : Cursor}
    (h : readCode pool signature c = .ok (code, c')) : code.bytes.length < 65536 := by
  unfold readCode at h
  obtain ⟨c₁, c₂, h⟩ := exists_of_readMeasured h
  obtain ⟨maxStack, _, _, h⟩ := exists_of_bind h
  obtain ⟨maxLocals, _, _, h⟩ := exists_of_bind h
  obtain ⟨lengthOffset, _, _, h⟩ := exists_of_bind h
  obtain ⟨length, _, _, h⟩ := exists_of_bind h
  split at h
  · obtain ⟨left, _, _, h⟩ := exists_of_bind h
    cases h
  · rename_i hlength
    obtain ⟨codePosition, _, _, h⟩ := exists_of_bind h
    obtain ⟨bytes, _, hbytes, h⟩ := exists_of_bind h
    obtain ⟨handlersOffset, _, _, h⟩ := exists_of_bind h
    obtain ⟨handlers, _, _, h⟩ := exists_of_bind h
    split at h
    · cases h
    · obtain ⟨stackMap, _, _, h⟩ := exists_of_bind h
      cases h
      have hcount := length_of_bytes hbytes
      dsimp only
      omega

/-- **The code of every method is shorter than 65536 bytes.** -/
theorem length_code_of_mem_methods {input : List UInt8} {file : ClassFile}
    (h : parse input = .ok file) {d : MethodDecl} (hd : d ∈ file.methods) {code : CodeBody}
    (hcode : d.code = some code) : code.bytes.length < 65536 := by
  obtain ⟨offset, hr⟩ := read_of_parse h
  obtain ⟨-, -, n, c₁, c₂, hm⟩ := parts_of_read hr
  obtain ⟨c₃, c₄, hone⟩ := exists_of_mem_times hm hd
  obtain ⟨-, signature, c₅, c₆, hread⟩ := parts_of_readMethod hone
  rw [hcode] at hread
  obtain ⟨c₇, c₈, hbody⟩ := exists_of_readAttributes hread
  exact length_of_readCode hbody

end ClassFile

end Collation
