/-
  File:      Collation/Proofs/ClassFile/Delimited.lean
  Subject:   A class file says itself where it ends.

  A read looks at the bytes that it takes and at no others.  So what was read once is read again
  whatever stands behind it, and if the input ends before the last byte of it, the read is refused as
  truncated and for no other reason: no check comes out differently, or comes earlier, because less
  is left.

  * `Reader.Delimited` -- a read of this sort;
  * `Reader.Delimited.bind`, `Reader.delimited_iterate` -- reads that are put together from such reads
    are such reads;
  * `ClassFile.delimited_read` -- so is the read of a whole class;
  * **`ClassFile.parse_self_delimiting`** -- nothing can be added to a class file or taken off its end.
-/
import Collation.Proofs.ClassFile.Reading
import Collation.Proofs.ClassFile.Written

namespace Collation

/-! ## 1. Delimited reads -/

namespace Reader

variable {α β : Type}

/-- The read begins at `offset` and fails because the bytes are too few; the place at which it fails
    is not beyond them. -/
def Lacks (r : Reader α) (offset : Nat) (bytes : List UInt8) : Prop :=
  ∃ place, place ≤ offset + bytes.length ∧ r ⟨offset, bytes⟩ = .error ⟨place, .truncated⟩

/-- Whenever the read succeeds, it depends on the bytes that it took alone: it takes them whatever
    follows, and with only a part of them it fails for want of the others. -/
def Delimited (r : Reader α) : Prop :=
  ∀ ⦃c c' : Cursor⦄ ⦃a : α⦄, r c = .ok (a, c') →
    ∃ taken, c.rest = taken ++ c'.rest ∧ Reads r c.offset taken a ∧
      ∀ front missing, taken = front ++ missing → missing ≠ [] → Lacks r c.offset front

theorem bind_of_ok {r : Reader α} {k : α → Reader β} {c c' : Cursor} {a : α}
    (h : r c = .ok (a, c')) : (r >>= k) c = k a c' := by
  show StateT.bind r k c = _
  unfold StateT.bind
  rw [h]
  rfl

theorem bind_of_error {r : Reader α} {k : α → Reader β} {c : Cursor} {e : Rejection}
    (h : r c = .error e) : (r >>= k) c = .error e := by
  show StateT.bind r k c = _
  unfold StateT.bind
  rw [h]
  rfl

theorem Lacks.bind {r : Reader α} {offset : Nat} {bytes : List UInt8} (h : Lacks r offset bytes)
    (k : α → Reader β) : Lacks (r >>= k) offset bytes := by
  obtain ⟨place, hplace, hr⟩ := h
  exact ⟨place, hplace, bind_of_error hr⟩

/-- What is lacking behind a read that succeeds is lacking after it. -/
theorem Reads.bind_lacks {r : Reader α} {k : α → Reader β} {offset : Nat} {xs ys : List UInt8} {a : α}
    (hr : Reads r offset xs a) (hk : Lacks (k a) (offset + xs.length) ys) :
    Lacks (r >>= k) offset (xs ++ ys) := by
  obtain ⟨place, hplace, hk⟩ := hk
  refine ⟨place, ?_, (bind_of_ok (hr ys)).trans hk⟩
  rw [List.length_append]
  omega

/-- **One delimited read after another is delimited.**  An input that ends too early ends either
    before the first read is done, or at some place in what the second one takes. -/
theorem Delimited.bind {r : Reader α} {k : α → Reader β} (hr : Delimited r)
    (hk : ∀ a, Delimited (k a)) : Delimited (r >>= k) := by
  intro c c' b h
  obtain ⟨a, c₁, h₁, h₂⟩ := exists_of_bind h
  obtain ⟨xs, hxs, hreads, hlacks⟩ := hr h₁
  obtain ⟨ys, hys, hreads', hlacks'⟩ := hk a h₂
  have hc : c = ⟨c.offset, xs ++ c₁.rest⟩ := by rw [← hxs]
  have hc₁ : c₁ = ⟨c.offset + xs.length, c₁.rest⟩ := by
    have he := h₁.symm.trans ((congrArg r hc).trans (hreads c₁.rest))
    exact congrArg Prod.snd (Except.ok.inj he)
  rw [hc₁] at hreads' hlacks'
  refine ⟨xs ++ ys, by rw [hxs, hys, List.append_assoc], hreads.bind hreads', ?_⟩
  intro front missing hsplit hne
  rcases List.append_eq_append_iff.mp hsplit with ⟨later, hfront, hlater⟩ | ⟨lost, hlost, hmissing⟩
  · rw [hfront]
    exact hreads.bind_lacks (hlacks' later missing hlater hne)
  · cases lost with
    | cons v lost => exact (hlacks front (v :: lost) hlost (List.cons_ne_nil _ _)).bind k
    | nil =>
      rw [List.append_nil] at hlost
      have hys : ys = [] ++ missing := hmissing.symm
      have := hreads.bind_lacks (hlacks' [] missing hys hne)
      rwa [List.append_nil, hlost] at this

/-- A read of nothing. -/
theorem delimited_of_idle {r : Reader α} (f : Nat → α) (h : ∀ c, r c = .ok (f c.offset, c)) :
    Delimited r := by
  intro c c' a hr
  cases (h c).symm.trans hr
  refine ⟨[], rfl, fun rest => h ⟨c.offset, rest⟩, fun front missing hsplit hne => ?_⟩
  exact absurd (List.nil_eq_append_iff.mp hsplit).2 hne

/-- A read that never succeeds. -/
theorem delimited_of_error {r : Reader α} (h : ∀ c, ∃ e, r c = .error e) : Delimited r := by
  intro c c' a hr
  obtain ⟨e, he⟩ := h c
  cases he.symm.trans hr

/-- A read of exactly `n` bytes, whatever they are. -/
theorem delimited_of_fixed {r : Reader α} (n : Nat)
    (hreads : ∀ offset xs, xs.length = n → ∃ a, Reads r offset xs a)
    (hlacks : ∀ offset xs, xs.length < n → r ⟨offset, xs⟩ = .error ⟨offset, .truncated⟩) :
    Delimited r := by
  intro c c' a hr
  have henough : n ≤ c.rest.length := by
    by_contra hfew
    cases (hlacks c.offset c.rest (Nat.lt_of_not_le hfew)).symm.trans hr
  have hlength : (c.rest.take n).length = n := List.length_take_of_le henough
  obtain ⟨a', ha'⟩ := hreads c.offset (c.rest.take n) hlength
  have hsame := ha' (c.rest.drop n)
  rw [List.take_append_drop] at hsame
  cases hsame.symm.trans hr
  refine ⟨c.rest.take n, (List.take_append_drop n c.rest).symm, ha', ?_⟩
  intro front missing hsplit hne
  refine ⟨c.offset, Nat.le_add_right _ _, hlacks _ _ ?_⟩
  have hmissing := List.length_pos_of_ne_nil hne
  rw [hsplit, List.length_append] at hlength
  omega

/-! ## 2. The reads of which all others are made -/

theorem delimited_pure (a : α) : Delimited (pure a : Reader α) :=
  delimited_of_idle (fun _ => a) fun _ => rfl

theorem delimited_position : Delimited position := delimited_of_idle id fun _ => rfl

theorem delimited_reject (offset : Nat) (defect : Defect) :
    Delimited (reject offset defect : Reader α) :=
  delimited_of_error fun _ => ⟨_, rfl⟩

theorem delimited_answer (answered : Except Rejection α) : Delimited (answer answered) := by
  cases answered with
  | ok a => exact delimited_of_idle (fun _ => a) fun _ => rfl
  | error e => exact delimited_of_error fun _ => ⟨e, rfl⟩

theorem delimited_u8 : Delimited u8 := by
  refine delimited_of_fixed 1 (fun offset xs h => ?_) (fun offset xs h => ?_)
  · obtain ⟨v, rfl⟩ := List.length_eq_one_iff.mp h
    exact ⟨v, reads_u8 offset v⟩
  · obtain rfl := List.length_eq_zero_iff.mp (Nat.lt_one_iff.mp h)
    rfl

theorem delimited_u16 : Delimited u16 := by
  refine delimited_of_fixed 2 (fun offset xs h => ?_) (fun offset xs h => ?_)
  · obtain ⟨v, w, rfl⟩ := List.length_eq_two.mp h
    exact ⟨Word.ofBytes16 v w, fun _ => rfl⟩
  · rcases xs with _ | ⟨v, _ | ⟨w, xs⟩⟩
    · rfl
    · rfl
    · simp only [List.length_cons] at h
      omega

theorem delimited_u32 : Delimited u32 := by
  refine delimited_of_fixed 4 (fun offset xs h => ?_) (fun offset xs h => ?_)
  · obtain ⟨v, xs, rfl⟩ := List.exists_cons_of_length_eq_add_one h
    obtain ⟨w, x, y, rfl⟩ := List.length_eq_three.mp (Nat.succ.inj h)
    exact ⟨Word.ofBytes32 v w x y, fun _ => rfl⟩
  · rcases xs with _ | ⟨v, _ | ⟨w, _ | ⟨x, _ | ⟨y, xs⟩⟩⟩⟩
    · rfl
    · rfl
    · rfl
    · rfl
    · simp only [List.length_cons] at h
      omega

theorem takeExactly_eq_none {n : Nat} {acc xs : List α} (h : xs.length < n) :
    takeExactly n acc xs = none := by
  induction n generalizing acc xs with
  | zero => exact absurd h (Nat.not_lt_zero _)
  | succ n ih =>
    cases xs with
    | nil => rfl
    | cons x xs => exact ih (Nat.lt_of_succ_lt_succ h)

theorem delimited_bytes (n : Nat) : Delimited (bytes n) := by
  refine delimited_of_fixed n (fun offset xs h => ?_) (fun offset xs h => ?_)
  · subst h
    exact ⟨xs, reads_bytes offset xs⟩
  · rw [bytes, takeExactly_eq_none h]

theorem Delimited.discard {r : Reader α} (h : Delimited r) : Delimited (discard r) :=
  h.bind fun _ => delimited_pure ()

theorem Delimited.ite {p : Prop} [Decidable p] {r s : Reader α} (hr : Delimited r)
    (hs : Delimited s) : Delimited (if p then r else s) := by
  split
  · exact hr
  · exact hs

/-- **Delimited reads, one after the other, are delimited**, each being given what the last one
    made. -/
theorem delimited_iterate {step : β → Reader β} (h : ∀ b, Delimited (step b)) (n : Nat) (b : β) :
    Delimited (iterate step n b) := by
  induction n generalizing b with
  | zero => exact delimited_pure b
  | succ n ih =>
    have hsucc : iterate step (n + 1) b = (step b >>= fun b' => iterate step n b') := by
      funext c
      cases hstep : step b c with
      | ok p => rw [iterate, hstep, bind_of_ok hstep]
      | error e => rw [iterate, hstep, bind_of_error hstep]
    rw [hsucc]
    exact (h b).bind ih

theorem Delimited.times {r : Reader α} (h : Delimited r) (n : Nat) : Delimited (times n r) := by
  have hstep : ∀ acc : Array α, Delimited (do return acc.push (← r)) :=
    fun acc => h.bind fun a => delimited_pure (acc.push a)
  exact (delimited_iterate hstep n #[]).bind fun all => delimited_pure all.toList

end Reader

/-! ## 3. The parts of a class file -/

namespace ClassFile

open Reader

/-- Two words that make up a constant. -/
theorem delimited_pair (offset : Nat) (make : UInt16 → UInt16 → Constant) :
    Delimited (do return (offset, make (← u16) (← u16))) :=
  delimited_u16.bind fun v => delimited_u16.bind fun w => delimited_pure (offset, make v w)

theorem delimited_readConstant : Delimited readConstant := by
  unfold readConstant
  refine delimited_position.bind fun offset => delimited_u8.bind fun tag => ?_
  refine .ite ?text (.ite ?cls (.ite (delimited_pair _ _) (.ite (delimited_pair _ _)
    (.ite (delimited_pair _ _) (.ite (delimited_pair _ _) (delimited_reject _ _))))))
  case text =>
    refine delimited_u16.bind fun length => (delimited_bytes _).bind fun encoded => ?_
    cases ModifiedUtf8.decode encoded with
    | some value => exact delimited_pure _
    | none => exact delimited_reject _ _
  case cls => exact delimited_u16.bind fun name => delimited_pure _

theorem delimited_readPool : Delimited readPool := by
  unfold readPool
  refine delimited_position.bind fun offset => delimited_u16.bind fun count => ?_
  refine .ite (delimited_reject _ _) ((delimited_readConstant.times _).bind fun constants => ?_)
  exact (delimited_answer _).bind fun _ => delimited_pure _

theorem delimited_readClassName (pool : Pool) : Delimited (readClassName pool) :=
  delimited_position.bind fun _ => delimited_u16.bind fun _ => delimited_answer _

theorem delimited_readText (pool : Pool) : Delimited (readText pool) :=
  delimited_position.bind fun _ => delimited_u16.bind fun _ => delimited_answer _

theorem delimited_skipBody : Delimited skipBody :=
  delimited_u32.bind fun _ => (delimited_bytes _).discard

theorem delimited_skipAttributes (pool : Pool) : Delimited (skipAttributes pool) :=
  delimited_u16.bind fun _ => (Delimited.times
    ((delimited_readText pool).discard.bind fun _ => delimited_skipBody) _).discard

theorem delimited_readField (pool : Pool) : Delimited (readField pool) := by
  unfold readField
  refine delimited_u16.bind fun flags => (delimited_readText pool).bind fun name => ?_
  refine delimited_position.bind fun offset => (delimited_readText pool).bind fun descriptor => ?_
  cases FieldType.parse descriptor with
  | error _ => exact delimited_reject _ _
  | ok type => exact (delimited_skipAttributes pool).bind fun _ => delimited_pure _

theorem delimited_readSlotType (pool : Pool) : Delimited (readSlotType pool) := by
  unfold readSlotType
  refine delimited_position.bind fun offset => delimited_u8.bind fun tag => ?_
  refine .ite (delimited_pure _) (.ite (delimited_pure _) (.ite (delimited_pure _)
    (.ite (delimited_pure _) (.ite (delimited_pure _) (.ite (delimited_pure _)
      (.ite ?object (delimited_reject _ _)))))))
  exact (delimited_readClassName pool).bind fun name => delimited_pure _

/-- Frames have different lengths, but the tag in front says which. -/
theorem delimited_readFrame (pool : Pool) : Delimited (readFrame pool) := by
  have hslot := delimited_readSlotType pool
  unfold readFrame
  refine delimited_position.bind fun offset => delimited_u8.bind fun tag => ?_
  refine .ite (delimited_pure _) (.ite ?one (.ite (delimited_reject _ _) (.ite ?far (.ite ?chop
    (.ite ?same (.ite ?append ?full))))))
  case one => exact hslot.bind fun _ => delimited_pure _
  case far => exact delimited_u16.bind fun _ => hslot.bind fun _ => delimited_pure _
  case chop => exact delimited_u16.bind fun _ => delimited_pure _
  case same => exact delimited_u16.bind fun _ => delimited_pure _
  case append => exact delimited_u16.bind fun _ => (hslot.times _).bind fun _ => delimited_pure _
  case full =>
    refine delimited_u16.bind fun delta => delimited_u16.bind fun localCount => ?_
    refine (hslot.times _).bind fun locals => delimited_u16.bind fun stackCount => ?_
    exact (hslot.times _).bind fun stack => delimited_pure _

/-- The length in front of a body is compared with what was taken, not with what is left. -/
theorem delimited_readMeasured {α : Type} {body : Reader α} (h : Delimited body) :
    Delimited (readMeasured body) := by
  unfold readMeasured
  refine delimited_position.bind fun offset => delimited_u32.bind fun declared => ?_
  refine delimited_position.bind fun start => h.bind fun a => delimited_position.bind fun stop => ?_
  exact .ite (delimited_pure a) (delimited_reject _ _)

theorem delimited_readStackMap (pool : Pool) : Delimited (readStackMap pool) :=
  delimited_readMeasured (delimited_u16.bind fun _ => (delimited_readFrame pool).times _)

theorem delimited_readOnce {α : Type} (pool : Pool) (owner wanted : String) {body : Reader α}
    (h : Delimited body) (found : Option α) : Delimited (readOnce pool owner wanted body found) := by
  unfold readOnce
  refine delimited_position.bind fun offset => (delimited_readText pool).bind fun name => ?_
  refine .ite ?_ (delimited_skipBody.bind fun _ => delimited_pure _)
  cases found with
  | some _ => exact delimited_reject _ _
  | none => exact h.bind fun a => delimited_pure _

theorem delimited_readAttributes {α : Type} (pool : Pool) (owner wanted : String) {body : Reader α}
    (h : Delimited body) : Delimited (readAttributes pool owner wanted body) :=
  delimited_u16.bind fun _ => delimited_iterate (delimited_readOnce pool owner wanted h) _ _

/-- The number of bytes that are left is looked at only to refuse a length that is out of range
    whatever is left. -/
theorem delimited_readCode (pool : Pool) (signature : String) :
    Delimited (readCode pool signature) := by
  refine delimited_readMeasured ?_
  refine delimited_u16.bind fun maxStack => delimited_u16.bind fun maxLocals => ?_
  refine delimited_position.bind fun lengthOffset => delimited_u32.bind fun length => ?_
  refine .ite (delimited_of_error fun _ => ⟨_, rfl⟩) ?_
  refine delimited_position.bind fun codePosition => (delimited_bytes _).bind fun code => ?_
  refine delimited_position.bind fun handlersOffset => delimited_u16.bind fun handlers => ?_
  refine .ite (delimited_reject _ _) ?_
  exact (delimited_readAttributes pool _ _ (delimited_readStackMap pool)).bind
    fun stackMap => delimited_pure _

theorem delimited_readMethod (pool : Pool) : Delimited (readMethod pool) := by
  unfold readMethod
  refine delimited_position.bind fun start => delimited_u16.bind fun word => ?_
  refine (delimited_readText pool).bind fun name => delimited_position.bind fun offset => ?_
  refine (delimited_readText pool).bind fun descriptor => ?_
  cases MethodType.parse descriptor with
  | error _ => exact delimited_reject _ _
  | ok type =>
    refine (delimited_readAttributes pool _ _ (delimited_readCode pool _)).bind fun code => ?_
    exact .ite (delimited_reject _ _) (delimited_pure _)

theorem delimited_readVersion : Delimited readVersion := by
  unfold readVersion
  refine delimited_position.bind fun offset => delimited_u16.bind fun minor => ?_
  exact delimited_u16.bind fun major => .ite (delimited_pure _) (delimited_reject _ _)

/-! ## 4. The whole file -/

/-- **The read of a class is delimited.** -/
theorem delimited_read : Delimited read := by
  unfold read
  refine delimited_u32.bind fun word => .ite (delimited_reject _ _) ?_
  refine delimited_readVersion.bind fun version => delimited_readPool.bind fun pool => ?_
  have hname := delimited_readClassName pool
  refine delimited_u16.bind fun flags => hname.bind fun thisClass => hname.bind fun superClass => ?_
  refine delimited_u16.bind fun interfaceCount => (hname.times _).bind fun interfaces => ?_
  refine delimited_u16.bind fun fieldCount => ?_
  refine ((delimited_readField pool).times _).bind fun fields => ?_
  refine delimited_u16.bind fun methodCount => ?_
  refine ((delimited_readMethod pool).times _).bind fun methods => ?_
  exact (delimited_skipAttributes pool).bind fun _ => delimited_pure _

/-- **Nothing can be added to a class file or taken off its end.**  If all the bytes are a class, then
    with more bytes behind them they are refused where the class ends, with the number of those
    bytes; and any part that lacks some of the last ones is refused as truncated, at a place not
    beyond it. -/
theorem parse_self_delimiting {input : List UInt8} {file : ClassFile} (h : parse input = .ok file) :
    (∀ more, more ≠ [] →
      parse (input ++ more) = .error ⟨input.length, .trailingBytes more.length⟩) ∧
    ∀ part, part <+: input → part ≠ input →
      ∃ place, place ≤ part.length ∧ parse part = .error ⟨place, .truncated⟩ := by
  obtain ⟨stop, hread⟩ := read_of_parse h
  obtain ⟨taken, hrest, hreads, hlacks⟩ := delimited_read hread
  obtain rfl : input = taken := hrest.trans (List.append_nil taken)
  refine ⟨fun more hmore => ?_, fun part hpart hne => ?_⟩
  · have hlonger : read (.start (input ++ more)) = .ok (file, ⟨input.length, more⟩) := by
      rw [← Nat.zero_add input.length]
      exact hreads more
    obtain ⟨v, more, rfl⟩ := List.exists_cons_of_ne_nil hmore
    rw [parse, hlonger]
  · obtain ⟨missing, hmissing⟩ := hpart
    have hsome : missing ≠ [] := by
      rintro rfl
      exact hne (by rw [← hmissing, List.append_nil])
    obtain ⟨place, hplace, hfails⟩ := hlacks part missing hmissing.symm hsome
    refine ⟨place, (Nat.zero_add part.length) ▸ hplace, ?_⟩
    rw [parse, show read (.start part) = _ from hfails]

/-- A class of 51 bytes: it has one field, and the field one attribute, which is skipped. -/
def plainBytes : List UInt8 :=
  [0xCA, 0xFE, 0xBA, 0xBE, 0, 0, 0, 51,
    0, 4, 1, 0, 1, 65, 7, 0, 1, 1, 0, 1, 73,
    0, 1, 0, 2, 0, 2, 0, 0,
    0, 1, 0, 2, 0, 1, 0, 3, 0, 1, 0, 1, 0, 0, 0, 2, 9, 9,
    0, 0, 0, 0]

def plain : ClassFile where
  version := ⟨0, 51⟩
  pool := ⟨#[.text "A", .cls 1, .text "I"]⟩
  flags := .ofWord 1
  thisClass := "A"
  superClass := "A"
  interfaces := []
  fields := [⟨.ofWord 2, "A", .base .int⟩]
  methods := []

/-- One byte more, or the attribute cut in two. -/
theorem parse_self_delimiting_plain :
    parse plainBytes = .ok plain ∧
      parse (plainBytes ++ [0]) = .error ⟨51, .trailingBytes 1⟩ ∧
      ∃ place, place ≤ 46 ∧ parse (plainBytes.take 46) = .error ⟨place, .truncated⟩ := by
  have hparse : parse plainBytes = .ok plain := by decide
  obtain ⟨hmore, hpart⟩ := parse_self_delimiting hparse
  exact ⟨hparse, hmore [0] (List.cons_ne_nil _ _),
    hpart (plainBytes.take 46) (List.take_prefix _ _) (by decide)⟩

end ClassFile

end Collation
