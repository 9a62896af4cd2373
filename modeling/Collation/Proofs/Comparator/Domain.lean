/-
  File:      Collation/Proofs/Comparator/Domain.lean
  Subject:   For which layouts a class is generated, and what is answered for the others.

  A column that cannot be pushed is refused before anything is written.  After that only one thing
  can go wrong: the first of the jumps out of the comparing method goes over the code of all keys but
  the first, and this distance has to fit into the operand of a jump.  It is a sum over the keys.
  What the session still holds of earlier classes does not matter.

  * `Layout.firstJump` -- the distance, told from the layout;
  * `Generator.verdict` -- the answer for a layout, told from the layout and the number of the class;
  * `Generator.generate_eq_verdict` -- one call gives this answer;
  * `Generator.generated_run` -- the calls that count;
  * **`Generator.generate_domain`** -- the answer after any history of calls.
-/
import Collation.Proofs.Comparator.Compilable

namespace Collation

open Generator

/-! ## 1. The distance of the first jump -/

/-- How many bytes the code of some keys has, the jumps between them apart. -/
def Generator.keysSize : List SortKey → Nat
  | [] => 0
  | key :: rest => keySize key + keysSize rest

/-- The distance of the first jump in the code for at least two keys: the code of the other keys,
    four bytes for the jump behind each of them but the last, and the jump itself. -/
def Layout.firstJump (layout : Layout) : Nat :=
  keysSize layout.keys.tail + 4 * layout.keys.length - 5

namespace Generator

theorem length_keysBytes (pool : Indices) (key : SortKey) (rest : List SortKey) :
    (keysBytes pool (key :: rest)).length = keysSize (key :: rest) + 4 * rest.length := by
  induction rest generalizing key with
  | nil =>
    rw [keysBytes_single, length_keyCode]
    rfl
  | cons next rest ih =>
    have hload : (Encode.iload resultLocal).length = 1 := rfl
    rw [keysBytes_cons]
    simp only [List.length_append, List.length_cons, Word.length_bytes16, length_keyCode, hload, ih,
      keysSize]
    omega

/-- **The first jump goes over the code of the other keys.** -/
theorem length_firstJump {layout : Layout} {key next : SortKey} {rest : List SortKey}
    (h : layout.keys = key :: next :: rest) :
    3 + (keysBytes (indices layout) (next :: rest)).length = layout.firstJump := by
  rw [length_keysBytes, Layout.firstJump, h]
  simp only [List.tail_cons, List.length_cons]
  omega

theorem reaches_iff (layout : Layout) : Reaches (indices layout) layout.keys ↔
    ¬ (2 ≤ layout.keys.length ∧ 32767 < layout.firstJump) := by
  have hmax : Assembly.maxJump = 32767 := rfl
  constructor
  · rintro hreach ⟨htwo, hfar⟩
    rcases hkeys : layout.keys with _ | ⟨key, _ | ⟨next, rest⟩⟩
    · simp [hkeys] at htwo
    · simp [hkeys] at htwo
    · have hjump := length_firstJump hkeys
      rw [hkeys] at hreach
      have hnear := hreach.resolve_left (List.cons_ne_nil _ _)
      omega
  · intro h
    by_contra hreach
    obtain ⟨key, next, rest, hkeys, hfar⟩ := exists_of_not_reaches hreach
    have hjump := length_firstJump hkeys
    exact h ⟨by simp [hkeys], by omega⟩

/-! ## 2. One call -/

/-- **The answer for a layout.**  The first column that is out of range is refused; then a first jump
    that goes too far, with its distance; for all other layouts the class with the given number is
    generated. -/
def verdict (layout : Layout) (number : Nat) : Except GenerationFault (List UInt8) :=
  match layout.keys.find? fun key => 32767 < key.column.toNat with
  | some key => .error (.columnOutOfRange key.column)
  | none =>
    if 2 ≤ layout.keys.length ∧ 32767 < layout.firstJump then
      .error (.failed (.refused (.misuse (.codeTooLarge layout.firstJump))))
    else .ok (classText (className number) layout).bytes

/-- Only the number of the classes before goes into a name. -/
theorem nextName_eq (g : Generator) : g.nextName = className g.generated := rfl

/-- More classes than a word of 64 bits can count. -/
def countLimit : Nat := 18446744073709551616

theorem nameFits_of_lt {n : Nat} (h : n < countLimit) : NameFits (className n) := by
  refine nameFits_className (h.le.trans ?_)
  have hsome : countLimit ≤ SortKey.digits ^ 4 := by decide
  exact hsome.trans (Nat.pow_le_pow_right (by decide) (by decide))

/-- **One call gives the answer for the layout**, whatever the session holds. -/
theorem generate_eq_verdict (g : Generator) (layout : Layout) (h : g.generated < countLimit) :
    (g.generate layout).1 = verdict layout g.generated := by
  have hname : NameFits g.nextName := nextName_eq g ▸ nameFits_of_lt h
  unfold verdict
  cases hfind : layout.keys.find? fun key => 32767 < key.column.toNat with
  | some key =>
    have hmax : layout.keys.find? (fun key => maxColumn < key.column.toNat) = some key := hfind
    rw [generate, hmax]
  | none =>
    have hcolumns : ∀ key ∈ layout.keys, key.column.toNat ≤ maxColumn := fun key hkey =>
      Nat.not_lt.mp fun hlarge => List.find?_eq_none.mp hfind key hkey (decide_eq_true hlarge)
    dsimp only
    -- no jump goes farther than the first one, and nothing else can be refused
    split
    · rename_i hfar
      have hreach : ¬ Reaches (indices layout) layout.keys := fun hr => (reaches_iff layout).mp hr hfar
      obtain ⟨key, next, rest, hkeys, hjump⟩ := exists_of_not_reaches hreach
      obtain ⟨t, ht⟩ := fails_writeClass_far hname hkeys hjump
      rw [length_firstJump hkeys] at ht
      rw [generate_eq g hcolumns, ht]
    · rename_i hnear
      exact generate_ok hcolumns hname ((reaches_iff layout).mpr hnear)

/-! ## 3. Histories -/

/-- A call to a generator. -/
inductive Demand where
  | generate (layout : Layout)
  | assemble (layout : Layout)
  deriving DecidableEq, Repr

def Demand.layout : Demand → Layout
  | .generate layout | .assemble layout => layout

/-- The call makes a class. -/
def Demand.counts (d : Demand) : Bool := (verdict d.layout 0).isOk

/-- The generator after a call. -/
def after (g : Generator) : Demand → Generator
  | .generate layout => (g.generate layout).2
  | .assemble layout => (g.assemble layout).2

/-- The generator after some calls, all made to a new one. -/
def run (demands : List Demand) : Generator := demands.foldl after new

/-- Linking the class does not concern the generator. -/
theorem assemble_snd (g : Generator) (layout : Layout) :
    (g.assemble layout).2 = (g.generate layout).2 := by
  unfold assemble
  generalize g.generate layout = generated
  obtain ⟨answer, g'⟩ := generated
  cases answer with
  | error e => rfl
  | ok bytes =>
    dsimp only
    cases LinkedClass.load bytes <;> rfl

theorem after_eq (g : Generator) (d : Demand) : g.after d = (g.generate d.layout).2 := by
  cases d with
  | generate layout => rfl
  | assemble layout => exact assemble_snd g layout

theorem isOk_verdict (layout : Layout) (m n : Nat) :
    (verdict layout m).isOk = (verdict layout n).isOk := by
  unfold verdict
  split
  · rfl
  · split <;> simp only [Except.isOk, Except.toBool]

/-- A call that makes a class is counted, and no other. -/
theorem generated_after {g : Generator} (h : g.generated < countLimit) (d : Demand) :
    (g.after d).generated = g.generated + (if d.counts then 1 else 0) := by
  have hanswer := generate_eq_verdict g d.layout h
  have hcounts : d.counts = (verdict d.layout g.generated).isOk := isOk_verdict _ _ _
  rw [after_eq, hcounts]
  cases hverdict : verdict d.layout g.generated with
  | ok bytes => exact generated_of_ok (hanswer.trans hverdict)
  | error fault => exact generated_of_error (hanswer.trans hverdict)

/-- **The generator has counted the calls that made a class.** -/
theorem generated_run {demands : List Demand} (h : demands.countP Demand.counts < countLimit) :
    (run demands).generated = demands.countP Demand.counts := by
  -- by the last call, as the generator is what the calls before it left behind
  induction demands using List.reverseRecOn with
  | nil => rfl
  | append_singleton demands d ih =>
    rw [List.countP_append, List.countP_singleton] at h ⊢
    have hbefore := ih (Nat.lt_of_le_of_lt (Nat.le_add_right _ _) h)
    have hlimit : (run demands).generated < countLimit := by omega
    have hafter := generated_after hlimit d
    rw [hbefore] at hafter
    rw [run, List.foldl_append]
    exact hafter

/-- **The exact domain of generating.**  After any history of calls, as long as the classes can be
    counted in a word of 64 bits, the answer for a layout is that of `verdict`: it depends on the
    layout and on the number of classes that were made before, and not on what the session holds.
    A call that fails leaves the name of the next class as it is. -/
theorem generate_domain (demands : List Demand) (layout : Layout)
    (h : demands.countP Demand.counts < countLimit) :
    ((run demands).generate layout).1 = verdict layout (demands.countP Demand.counts) ∧
    (∀ fault, ((run demands).generate layout).1 = .error fault →
      ((run demands).generate layout).2.nextName = (run demands).nextName) ∧
    ∀ g : Generator, g.generated = (run demands).generated →
      (g.generate layout).1 = ((run demands).generate layout).1 := by
  have hcount := generated_run h
  have hlimit : (run demands).generated < countLimit := hcount.trans_lt h
  have hanswer := generate_eq_verdict (run demands) layout hlimit
  refine ⟨?_, fun fault hfault => ?_, fun g hg => ?_⟩
  · rw [hanswer, hcount]
  · rw [nextName_eq, nextName_eq, generated_of_error hfault]
  · rw [hanswer, generate_eq_verdict g layout (hg.trans_lt hlimit), hg]

theorem keysSize_replicate (n : Nat) (key : SortKey) :
    keysSize (List.replicate n key) = n * keySize key := by
  induction n with
  | zero => rw [List.replicate_zero, keysSize, Nat.zero_mul]
  | succ n ih => rw [List.replicate_succ, keysSize, ih, Nat.succ_mul, Nat.add_comm]

/-- A layout with so many keys that the first jump goes too far. -/
def overlong : Layout := ⟨List.replicate 1200 ⟨.int, 300, false⟩⟩

theorem verdict_overlong (number : Nat) :
    verdict overlong number = .error (.failed (.refused (.misuse (.codeTooLarge 34770)))) := by
  have hfind : overlong.keys.find? (fun key => 32767 < key.column.toNat) = none := by
    rw [overlong, List.find?_replicate]
    decide
  have hlength : overlong.keys.length = 1200 := List.length_replicate
  have hjump : overlong.firstJump = 34770 := by
    have htail : overlong.keys.tail = List.replicate 1199 ⟨.int, 300, false⟩ := rfl
    have hsize : keySize ⟨.int, 300, false⟩ = 25 := by decide
    rw [Layout.firstJump, htail, hlength, keysSize_replicate, hsize]
  rw [verdict, hfind]
  dsimp only
  rw [hlength, hjump, if_pos (by decide)]

/-- A layout with one key. -/
def narrow (column : UInt16) : Layout := ⟨[⟨.int, column, false⟩]⟩

/-- A column out of range, a class that is made, and a jump that goes too far. -/
def history : List Demand := [.generate (narrow 40000), .assemble (narrow 7), .generate overlong]

theorem countP_history : history.countP Demand.counts = 1 := by
  have hfar : (Demand.generate overlong).counts = false := by
    rw [Demand.counts, Demand.layout, verdict_overlong]
    rfl
  have hwide : (Demand.generate (narrow 40000)).counts = false := by decide
  have hmade : (Demand.assemble (narrow 7)).counts = true := by decide
  simp [history, hwide, hmade, hfar]

/-- Two failures and one class before: the next class has the number one, and the layout that was
    refused is refused again. -/
theorem generate_domain_history : history.countP Demand.counts < countLimit ∧
    ((run history).generate (narrow 127)).1 = .ok (classText (className 1) (narrow 127)).bytes ∧
    ((run history).generate overlong).1 =
      .error (.failed (.refused (.misuse (.codeTooLarge 34770)))) := by
  have hlimit : history.countP Demand.counts < countLimit := by
    rw [countP_history]
    decide
  have hok : verdict (narrow 127) 1 = .ok (classText (className 1) (narrow 127)).bytes := rfl
  have hanswer := fun layout => (generate_domain history layout hlimit).1
  rw [countP_history] at hanswer
  exact ⟨hlimit, (hanswer _).trans hok, (hanswer _).trans (verdict_overlong 1)⟩

end Generator

end Collation
