/-
  File:      Collation/Proofs/ClassFile/Resolution.lean
  Subject:   In a pool that was read, every index leads where its constant says.

  Constants refer to each other in any order, also forwards, and a member is two steps away from the
  texts that name it.  The reader checks all references once, when the whole pool is there.  From
  then on a resolution can fail for one reason only: the constant at the index that it was given is
  not of the kind that it wants.

  * `Pool.IsClosed` -- what every constant refers to is there;
  * `Pool.closed_of_checkEntries` -- so it is, if the check of the references passes;
  * `Pool.Exact` -- a resolution fails only over the index that it was given;
  * **`ClassFile.pool_resolutions_exact`** -- all resolutions in a pool that was read are of that sort.
-/
import Collation.Proofs.ClassFile.Reading
import Collation.Proofs.ClassFile.Written

namespace Collation

theorem MemberKind.constantKind_injective {a b : MemberKind}
    (h : a.constantKind = b.constantKind) : a = b := by
  revert h
  cases a <;> cases b <;> decide

namespace Pool

variable {p : Pool} {i : UInt16} {c : Constant} {offset : Nat} {s : String}

/-! ## 1. What a resolution has found -/

theorem text_eq_ok_iff : p.text i offset = .ok s ↔ p.get? i = some (.text s) := by
  constructor
  · intro h
    unfold text at h
    split at h
    · rename_i value hget
      cases h
      exact hget
    · cases h
  · exact fun h => text_eq h offset

theorem className_eq_ok_iff : p.className i offset = .ok s ↔ p.IsClass i s := by
  constructor
  · intro h
    unfold className at h
    split at h
    · rename_i name hget
      exact ⟨name, hget, text_eq_ok_iff.mp h⟩
    · cases h
  · exact fun h => h.className_eq offset

theorem nameAndType_eq_ok_iff {name descriptor : String} :
    p.nameAndType i offset = .ok (name, descriptor) ↔ p.IsPair i name descriptor := by
  constructor
  · intro h
    unfold nameAndType at h
    split at h
    · rename_i j k hget
      cases hj : p.text j offset with
      | error e =>
        rw [hj] at h
        cases h
      | ok name' =>
        cases hk : p.text k offset with
        | error e =>
          rw [hj, hk] at h
          cases h
        | ok descriptor' =>
          rw [hj, hk] at h
          cases h
          exact ⟨j, k, hget, text_eq_ok_iff.mp hj, text_eq_ok_iff.mp hk⟩
    · cases h
  · exact fun h => h.nameAndType_eq offset

/-! ## 2. Closed pools -/

/-- What every constant refers to is there, and of the right kind. -/
def IsClosed (p : Pool) : Prop := ∀ c ∈ p.entries.toList, p.Closed c

/-- **A constant whose references pass the check refers to what is there.** -/
theorem closed_of_checkEntry (h : p.checkEntry offset c = .ok ()) : p.Closed c := by
  cases c with
  | text value => trivial
  | cls name =>
    cases hname : p.text name offset with
    | error e =>
      rw [checkEntry, hname] at h
      cases h
    | ok s => exact ⟨s, text_eq_ok_iff.mp hname⟩
  | nameAndType name descriptor =>
    cases hname : p.text name offset with
    | error e =>
      rw [checkEntry, hname] at h
      cases h
    | ok s =>
      cases hdescriptor : p.text descriptor offset with
      | error e =>
        rw [checkEntry, hname, hdescriptor] at h
        cases h
      | ok d => exact ⟨⟨s, text_eq_ok_iff.mp hname⟩, d, text_eq_ok_iff.mp hdescriptor⟩
  | member kind owner pair =>
    cases howner : p.className owner offset with
    | error e =>
      rw [checkEntry, howner] at h
      cases h
    | ok s =>
      cases hpair : p.nameAndType pair offset with
      | error e =>
        rw [checkEntry, howner, hpair] at h
        cases h
      | ok found =>
        exact ⟨⟨s, className_eq_ok_iff.mp howner⟩, found.1, found.2, nameAndType_eq_ok_iff.mp hpair⟩

theorem closed_of_checkEntries {entries : List (Nat × Constant)}
    (h : p.checkEntries entries = .ok ()) : ∀ e ∈ entries, p.Closed e.2 := by
  induction entries with
  | nil => exact fun e he => absurd he List.not_mem_nil
  | cons entry entries ih =>
    obtain ⟨offset, c⟩ := entry
    unfold checkEntries at h
    split at h
    · rename_i hone
      intro e he
      rcases List.mem_cons.mp he with rfl | he
      · exact closed_of_checkEntry hone
      · exact ih h e he
    · cases h

/-! ## 3. Exact resolutions -/

theorem get?_eq_none_iff : p.get? i = none ↔ i = 0 ∨ p.count ≤ i.toNat := by
  unfold get? count
  split
  · rename_i hzero
    simp [hzero]
  · rename_i hne
    have hpos : i.toNat ≠ 0 := fun h => hne (UInt16.toNat_inj.mp h)
    rw [Array.getElem?_eq_none_iff]
    constructor
    · exact fun h => .inr (by omega)
    · rintro (h | h)
      · exact absurd h hne
      · omega

theorem mem_of_get? (h : p.get? i = some c) : c ∈ p.entries.toList := by
  unfold get? at h
  split at h
  · cases h
  · exact Array.mem_toList_iff.mpr (Array.mem_of_getElem? h)

/-- A resolution succeeds exactly at the indices of the constants of one kind.  If it fails, it
    names the index that it was given, the kind that it wanted there and the byte that it was told,
    and fail it does at zero and at all indices beyond the pool. -/
structure Exact {α : Type} (p : Pool) (kind : ConstantKind)
    (resolve : UInt16 → Nat → Except Rejection α) : Prop where
  found_iff : ∀ i offset, (∃ a, resolve i offset = .ok a) ↔ ∃ c, p.get? i = some c ∧ c.kind = kind
  refused : ∀ i offset e, resolve i offset = .error e → e = ⟨offset, .badConstantIndex i kind⟩
  outside : ∀ i offset, i = 0 ∨ p.count ≤ i.toNat →
    resolve i offset = .error ⟨offset, .badConstantIndex i kind⟩

/-- A resolution is exact if it succeeds at constants of its kind and refuses all other indices. -/
theorem exact_of_cases {α : Type} {kind : ConstantKind}
    {resolve : UInt16 → Nat → Except Rejection α}
    (hfound : ∀ {i c} offset, p.get? i = some c → c.kind = kind → ∃ a, resolve i offset = .ok a)
    (hrefused : ∀ {i} offset, (∀ c, p.get? i = some c → c.kind ≠ kind) →
      resolve i offset = badIndex offset i kind) : p.Exact kind resolve where
  found_iff i offset := by
    constructor
    · rintro ⟨a, ha⟩
      apply Classical.byContradiction
      intro hnone
      have hbad := hrefused offset fun c hc hkind => hnone ⟨c, hc, hkind⟩
      cases ha.symm.trans hbad
    · rintro ⟨c, hc, hkind⟩
      exact hfound offset hc hkind
  refused i offset e he := by
    by_cases hthere : ∃ c, p.get? i = some c ∧ c.kind = kind
    · obtain ⟨c, hc, hkind⟩ := hthere
      obtain ⟨a, ha⟩ := hfound offset hc hkind
      cases ha.symm.trans he
    · have hbad := hrefused offset fun c hc hkind => hthere ⟨c, hc, hkind⟩
      cases he.symm.trans hbad
      rfl
  outside i offset hout := by
    refine hrefused offset fun c hc => ?_
    rw [get?_eq_none_iff.mpr hout] at hc
    cases hc

theorem exact_text (p : Pool) : p.Exact .text p.text := by
  refine exact_of_cases (fun {i c} offset hc hkind => ?_) fun {i} offset hother => ?_
  · cases c with
    | text value => exact ⟨value, text_eq hc offset⟩
    | member kind owner pair => cases kind <;> cases hkind
    | _ => cases hkind
  · unfold text
    split
    · rename_i value hget
      exact absurd rfl (hother _ hget)
    · rfl

theorem exact_className (h : p.IsClosed) : p.Exact .cls p.className := by
  refine exact_of_cases (fun {i c} offset hc hkind => ?_) fun {i} offset hother => ?_
  · cases c with
    | cls name =>
      obtain ⟨s, hs⟩ := h _ (mem_of_get? hc)
      exact ⟨s, IsClass.className_eq ⟨name, hc, hs⟩ offset⟩
    | member kind owner pair => cases kind <;> cases hkind
    | _ => cases hkind
  · unfold className
    split
    · rename_i name hget
      exact absurd rfl (hother _ hget)
    · rfl

theorem exact_nameAndType (h : p.IsClosed) : p.Exact .nameAndType p.nameAndType := by
  refine exact_of_cases (fun {i c} offset hc hkind => ?_) fun {i} offset hother => ?_
  · cases c with
    | nameAndType name descriptor =>
      obtain ⟨⟨s, hs⟩, d, hd⟩ := h _ (mem_of_get? hc)
      exact ⟨(s, d), IsPair.nameAndType_eq ⟨name, descriptor, hc, hs, hd⟩ offset⟩
    | member kind owner pair => cases kind <;> cases hkind
    | _ => cases hkind
  · unfold nameAndType
    split
    · rename_i name descriptor hget
      exact absurd rfl (hother _ hget)
    · rfl

theorem exact_member (h : p.IsClosed) (wanted : MemberKind) :
    p.Exact wanted.constantKind fun i offset => p.member i wanted offset := by
  refine exact_of_cases (fun {i c} offset hc hkind => ?_) fun {i} offset hother => ?_
  · cases c with
    | member kind owner pair =>
      cases MemberKind.constantKind_injective hkind
      obtain ⟨⟨s, hs⟩, n, d, hp⟩ := h _ (mem_of_get? hc)
      have hmember : p.IsMember i ⟨wanted, s, n, d⟩ := ⟨owner, pair, hc, hs, hp⟩
      exact ⟨_, hmember.member_eq offset⟩
    | _ => cases wanted <;> cases hkind
  · unfold member
    split
    · rename_i kind owner pair hget
      rw [if_neg fun hkinds => hother _ hget (congrArg MemberKind.constantKind hkinds)]
    · rfl

end Pool

/-! ## 4. Pools that were read -/

namespace ClassFile

open Reader

/-- **A pool that was read is closed**, and its number of constants can be written in a word. -/
theorem isClosed_of_readPool {p : Pool} {c c' : Cursor} (h : readPool c = .ok (p, c')) :
    p.IsClosed ∧ p.count < 65536 := by
  unfold readPool at h
  obtain ⟨offset, _, _, h⟩ := exists_of_bind h
  obtain ⟨count, _, _, h⟩ := exists_of_bind h
  split at h
  · cases h
  · rename_i hcount
    obtain ⟨constants, _, htimes, h⟩ := exists_of_bind h
    obtain ⟨_, c₁, hcheck, h⟩ := exists_of_bind h
    cases h
    constructor
    · have hclosed : Pool.checkEntries ⟨(constants.map Prod.snd).toArray⟩ constants = .ok () := by
        unfold answer at hcheck
        split at hcheck
        · assumption
        · cases hcheck
      intro k hk
      obtain ⟨e, he, rfl⟩ := List.mem_map.mp hk
      exact Pool.closed_of_checkEntries hclosed e he
    · have hlength := length_of_times htimes
      have hlimit := count.toNat_lt
      simp only [Pool.count, List.size_toArray, List.length_map, hlength]
      omega

/-- **In a pool that was read every resolution is exact.**  A text, a class, a pair and a member are
    found exactly where there is one, and a failure is always over the index that was asked for, never
    over one inside the constant there. -/
theorem pool_resolutions_exact {input : List UInt8} {file : ClassFile} (h : parse input = .ok file) :
    file.pool.count < 65536 ∧
    file.pool.Exact .text file.pool.text ∧
    file.pool.Exact .cls file.pool.className ∧
    file.pool.Exact .nameAndType file.pool.nameAndType ∧
    ∀ wanted : MemberKind,
      file.pool.Exact wanted.constantKind fun i offset => file.pool.member i wanted offset := by
  obtain ⟨offset, hr⟩ := read_of_parse h
  obtain ⟨⟨c₁, c₂, hpool⟩, -⟩ := parts_of_read hr
  obtain ⟨hclosed, hcount⟩ := isClosed_of_readPool hpool
  exact ⟨hcount, file.pool.exact_text, Pool.exact_className hclosed, Pool.exact_nameAndType hclosed,
    Pool.exact_member hclosed⟩

/-- A class of 45 bytes; each constant of its pool refers to later ones only. -/
def forwardBytes : List UInt8 :=
  [0xCA, 0xFE, 0xBA, 0xBE, 0, 0, 0, 51,
    0, 6, 9, 0, 2, 0, 3, 7, 0, 4, 12, 0, 4, 0, 5, 1, 0, 1, 65, 1, 0, 1, 73,
    0, 1, 0, 2, 0, 2, 0, 0, 0, 0, 0, 0, 0, 0]

def forward : ClassFile where
  version := ⟨0, 51⟩
  pool := ⟨#[.member .field 2 3, .cls 4, .nameAndType 4 5, .text "A", .text "I"]⟩
  flags := .ofWord 1
  thisClass := "A"
  superClass := "A"
  interfaces := []
  fields := []
  methods := []

/-- The field is found through constants that come after it, and it is no class and no method. -/
theorem pool_resolutions_exact_forward :
    parse forwardBytes = .ok forward ∧ forward.pool.count < 65536 ∧
      (∃ m, forward.pool.member 1 .field 9 = .ok m) ∧
      forward.pool.className 6 9 = .error ⟨9, .badConstantIndex 6 .cls⟩ ∧
      ∀ e, forward.pool.member 1 .method 9 = .error e → e = ⟨9, .badConstantIndex 1 .method⟩ := by
  have hparse : parse forwardBytes = .ok forward := by decide
  obtain ⟨hcount, -, hclass, -, hmember⟩ := pool_resolutions_exact hparse
  exact ⟨hparse, hcount, ((hmember .field).found_iff 1 9).mpr ⟨_, rfl, rfl⟩,
    hclass.outside 6 9 (.inr (by decide)), (hmember .method).refused 1 9⟩

end ClassFile

end Collation
