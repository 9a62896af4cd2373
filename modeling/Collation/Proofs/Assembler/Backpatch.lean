/-
  File:      Collation/Proofs/Assembler/Backpatch.lean
  Subject:   Fields that get their value later.

  The number of constants, the length of a code and the length of a code attribute are written as
  zeros and filled in when they are known.  In between anything may be asked and refused, any bytes
  may be written, and jumps are placed, which replaces earlier bytes too.  As long as no bytes are
  overwritten by hand and jumps are placed in the method that they stand in, each field has the right
  value from the moment it is filled in.

  * `Journal.Tidy` -- no bytes were overwritten, and every jump was placed in its own method;
  * `Session.Trail.shows_of_tidy` -- what was filled in stays, along a tidy journal;
  * `Journal.Backpatched` -- the values of the fields, told by the journal;
  * **`Ledger.backpatched_run`** -- after any requests with a tidy journal the fields have these values.
-/
import Collation.Proofs.Assembler.Places

namespace Collation

/-! ## 1. Tidy journals -/

/-- The site by which a request places a jump. -/
def Request.placed? : Request → Option JumpSite
  | .placeJump site => some site
  | _ => none

/-- The request overwrites no bytes, and places a jump only by one of the sites. -/
def Request.Uses (sites : List JumpSite) (request : Request) : Prop :=
  request.kind ≠ .overwriting ∧ ∀ site ∈ request.placed?, site ∈ sites

instance (sites : List JumpSite) (request : Request) : Decidable (request.Uses sites) :=
  inferInstanceAs (Decidable (_ ∧ _))

/-- No bytes were overwritten, and every jump was placed by a site that was issued since the method
    in which it was placed was opened. -/
def Journal.Tidy : Journal → Prop
  | [] => True
  | e :: earlier => e.request.Uses (Journal.sites (Journal.inside earlier)) ∧ Journal.Tidy earlier

instance Journal.decidableTidy : (journal : Journal) → Decidable journal.Tidy
  | [] => .isTrue trivial
  | e :: earlier =>
    have := Journal.decidableTidy earlier
    inferInstanceAs (Decidable (e.request.Uses (Journal.sites (Journal.inside earlier)) ∧
      Journal.Tidy earlier))

namespace Session

variable {s t : Session} {request : Request} {reply : Reply} {journal later earlier : Journal}
  {e : JournalEntry} {lo hi i : Nat}

/-- A jump of the open method stands in its code, behind all that is out of reach. -/
theorem Step.not_rewrites (h : s.Step request reply t) (htrail : Session.empty.Trail journal s)
    (huses : request.Uses (Journal.sites journal.inside)) (hr : s.OutOfReach lo hi) (hhi : i < hi) :
    ¬ request.Rewrites i := by
  intro hrewrites
  cases h with
  | placesJump site hmethod hfield hahead hroom =>
    obtain ⟨o, ho, _, hcode, _⟩ := htrail.traced.method _ hmethod
    obtain ⟨_, _, _, hopened, hinside⟩ := htrail.at_opening ho
    have hsite := (hinside.site_bounds (huses.2 site rfl)).1
    have hbehind := (hr.method _ hmethod).code
    have hfrom : site.operandPosition ≤ i := hrewrites.1
    omega
  | overwrites16 _ _ _ => exact huses.1 rfl
  | overwrites32 _ _ _ => exact huses.1 rfl
  | writes _ _ hplain => cases request <;> first | exact hrewrites | cases hplain
  | _ => exact hrewrites

/-- **Calls leave alone what is out of reach**, along a tidy journal. -/
theorem Trail.get?_eq_of_tidy (h : s.Trail later t) (htrail : Session.empty.Trail earlier s)
    (htidy : Journal.Tidy (later ++ earlier)) (hr : s.OutOfReach lo hi) (hlo : lo ≤ i) (hhi : i < hi) :
    t.buffer.get? i = s.buffer.get? i := by
  induction h with
  | nil => rfl
  | cons h hstep ih =>
    obtain ⟨huses, htidy⟩ := htidy
    have hno := hstep.not_rewrites (htrail.append h) huses (h.outOfReach hr) hhi
    exact (hstep.get?_eq (h.outOfReach hr) hlo hhi hno).trans (ih htidy)

/-- **What was filled in stays**, along a tidy journal. -/
theorem Trail.shows_of_tidy (h : s.Trail later t) (htrail : Session.empty.Trail earlier s)
    (htidy : Journal.Tidy (later ++ earlier)) {b : Buffer} {p : Nat} {vs : List UInt8}
    (hbuffer : s.buffer = b.replace p vs) (hroom : p + vs.length ≤ b.position)
    (hr : s.OutOfReach lo hi) (hlo : lo ≤ p) (hhi : p + vs.length ≤ hi) : t.buffer.Shows p vs := by
  intro k hk
  rw [h.get?_eq_of_tidy htrail htidy hr (by omega : lo ≤ p + k) (by omega), hbuffer]
  exact b.shows_replace hroom k hk

/-! ## 2. The constants -/

/-- A class is begun once. -/
theorem Trail.header?_append (h : s.Trail later t) (htrail : Session.empty.Trail earlier s)
    {b : JournalEntry} (hb : earlier.header? = some b) : Journal.header? (later ++ earlier) = some b := by
  induction h with
  | nil => exact hb
  | cons h hstep ih => exact (htrail.append h).traced.header?_of_step hstep ih

/-- To a pool that is complete nothing is added. -/
theorem Trail.of_pooled (h : s.Trail later t) (hs : s.stage = .pooled) :
    t.stage = .pooled ∧ t.poolCount = s.poolCount := by
  induction h with
  | nil => exact ⟨hs, rfl⟩
  | cons h hstep ih =>
    obtain ⟨hstage, hcount⟩ := ih
    constructor
    · rcases hstep.stage_cases with ⟨_, hsame⟩ | ⟨_, hfresh, _⟩ | ⟨_, _, hpooled⟩
      · exact hsame.trans hstage
      · cases hfresh.symm.trans hstage
      · exact hpooled
    · rcases hstep.poolCount_cases with ⟨_, hsame⟩ | ⟨_, ⟨field, hpooling⟩, _⟩
      · exact hsame.trans hcount
      · cases hpooling.symm.trans hstage

theorem toNat_poolCount (h : Session.empty.Trail journal s) :
    (UInt16.ofNat s.poolCount).toNat = s.poolCount := by
  have hlimit : s.poolCount ≤ 65535 := h.poolCount_le (by decide)
  rw [UInt16.toNat_ofNat', Nat.mod_eq_of_lt]
  omega

/-- Constants are numbered in the order in which they are added. -/
theorem Trail.index_eq (h : Session.empty.Trail (later ++ e :: earlier) t)
    (hkind : e.request.kind = .constant) :
    ∃ i, e.reply = .index i ∧ i.toNat = earlier.added + 1 := by
  obtain ⟨hearlier, hstep, _⟩ := h.at_entry
  rcases hstep.poolCount_cases with ⟨hne, _⟩ | ⟨_, _, _, hreply, _⟩
  · exact absurd hkind hne
  · exact ⟨_, hreply, (toNat_poolCount hearlier).trans hearlier.traced.count⟩

/-- The number of constants stands behind the header, once the pool is complete. -/
theorem Trail.count_eq (h : Session.empty.Trail journal t) (htidy : journal.Tidy) (he : e ∈ journal)
    (hrequest : e.request = .finishPool) :
    ∃ b, journal.header? = some b ∧
      (t.buffer.get16? (b.before.position + 8)).map UInt16.toNat = some (journal.added + 1) := by
  obtain ⟨later, earlier, rfl⟩ := List.append_of_mem he
  obtain ⟨hearlier, hstep, hlater⟩ := h.at_entry
  have hthere : Session.empty.Trail (e :: earlier) e.after := hearlier.cons hstep
  obtain ⟨b, hb, hroom, hbuffer, hpooled, hsame, hr⟩ :=
    hearlier.traced.of_finishPool (hrequest ▸ hstep)
  have hshows := hlater.shows_of_tidy hthere htidy hbuffer hroom hr (Nat.le_refl _) (Nat.le_refl _)
  refine ⟨b, hlater.header?_append hthere (hearlier.traced.header?_of_step hstep hb), ?_⟩
  rw [Buffer.get16?_of_shows hshows, Option.map_some, toNat_poolCount hearlier]
  -- nothing was added since, so the number that was filled in is the number of all constants
  rw [← h.traced.count, (hlater.of_pooled hpooled).2, hsame]

/-! ## 3. The lengths -/

theorem toNat_get32? {b : Buffer} {p n : Nat} (h : b.Shows p (Word.bytes32 (UInt32.ofNat n)))
    (hn : n < 4294967296) : (b.get32? p).map UInt32.toNat = some n := by
  rw [Buffer.get32?_of_shows h, Option.map_some, UInt32.toNat_ofNat', Nat.mod_eq_of_lt hn]

/-- The length of a code stands in the head of its method, once the code is closed. -/
theorem Trail.codeLength_eq (h : Session.empty.Trail (later ++ e :: earlier) t)
    (htidy : Journal.Tidy (later ++ e :: earlier)) (hrequest : e.request = .endCode) :
    ∃ o n, earlier.opening? = some o ∧ o.after.position + n = e.before.position ∧
      1 ≤ n ∧ n ≤ 65535 ∧ (t.buffer.get32? (o.before.position + 18)).map UInt32.toNat = some n := by
  obtain ⟨hearlier, hstep, hlater⟩ := h.at_entry
  obtain ⟨o, n, ho, hspan, hne, hlimit, hroom, hbuffer, hr⟩ :=
    hearlier.of_endCode (hrequest ▸ hstep)
  have hshows := hlater.shows_of_tidy (hearlier.cons hstep) htidy hbuffer hroom hr
    (Nat.le_refl _) (Nat.le_refl _)
  exact ⟨o, n, ho, hspan, hne, hlimit, toNat_get32? hshows (by omega)⟩

/-- The length of a code attribute stands in the head of its method, once the method is ended. -/
theorem Trail.attributeLength_eq (h : Session.empty.Trail (later ++ e :: earlier) t)
    (htidy : Journal.Tidy (later ++ e :: earlier)) (hsize : t.position < 4294967296)
    (hrequest : e.request = .endMethod) :
    ∃ o n, earlier.opening? = some o ∧ o.before.position + 14 + n = e.before.position ∧
      (t.buffer.get32? (o.before.position + 10)).map UInt32.toNat = some n := by
  obtain ⟨hearlier, hstep, hlater⟩ := h.at_entry
  obtain ⟨o, n, ho, hspan, hbuffer, hr⟩ := hearlier.of_endMethod (hrequest ▸ hstep)
  have hle := hstep.position_le
  have hle' := hlater.position_le
  have hroom : o.before.position + 14 ≤ e.before.position := by omega
  have hshows := hlater.shows_of_tidy (hearlier.cons hstep) htidy hbuffer hroom hr
    (Nat.le_add_right _ _) (Nat.le_trans hroom hle)
  exact ⟨o, n, ho, hspan, toNat_get32? hshows (by omega)⟩

end Session

/-! ## 4. Runs -/

/-- **The values of the fields that were filled in**, told by the journal.  Of the ten bytes that begin
    a class the last two are for the number of its constants.  Of the 22 bytes that open a method the
    four from the tenth on are for the length of all that follows them in its code attribute, and the
    last four for the length of its code. -/
structure Journal.Backpatched (journal : Journal) (s : Session) : Prop where
  index : ∀ later e earlier, journal = later ++ e :: earlier → e.request.kind = .constant →
    ∃ i, e.reply = .index i ∧ i.toNat = Journal.added earlier + 1
  count : ∀ e ∈ journal, e.request = .finishPool → ∃ b, journal.header? = some b ∧
    (s.buffer.get16? (b.before.position + 8)).map UInt16.toNat = some (journal.added + 1)
  codeLength : ∀ later e earlier, journal = later ++ e :: earlier → e.request = .endCode →
    ∃ o n, Journal.opening? earlier = some o ∧ o.after.position + n = e.before.position ∧
      1 ≤ n ∧ n ≤ 65535 ∧ (s.buffer.get32? (o.before.position + 18)).map UInt32.toNat = some n
  attributeLength : ∀ later e earlier, journal = later ++ e :: earlier → e.request = .endMethod →
    ∃ o n, Journal.opening? earlier = some o ∧ o.before.position + 14 + n = e.before.position ∧
      (s.buffer.get32? (o.before.position + 10)).map UInt32.toNat = some n

namespace Ledger

/-- **Fields have the right value from the moment they are filled in.**  Whatever was asked, in
    whatever order, and whatever was refused: if no bytes were overwritten and every jump was placed in
    the method that it stands in, then the constants have the indices from one on, and the numbers and
    lengths of all that was completed stand in their fields. -/
theorem backpatched_run (requests : List Request) (htidy : (run requests).journal.Tidy)
    (hsize : (run requests).session.position < 4294967296) :
    (run requests).journal.Backpatched (run requests).session := by
  have htrail := trail_run requests
  constructor
  case index =>
    intro later e earlier hjournal hkind
    rw [hjournal] at htrail
    exact htrail.index_eq hkind
  case count =>
    intro e he hrequest
    exact htrail.count_eq htidy he hrequest
  case codeLength =>
    intro later e earlier hjournal hrequest
    rw [hjournal] at htrail htidy
    exact htrail.codeLength_eq htidy hrequest
  case attributeLength =>
    intro later e earlier hjournal hrequest
    rw [hjournal] at htrail htidy
    exact htrail.attributeLength_eq htidy hsize hrequest

/-- A request that is refused, a stray byte before the class, and a method with a jump. -/
def hopping : List Request :=
  [.endMethod, .putU8 7, .setupPool, .finishPool, .beginMethod .public 3 4 1 1, .jump Opcode.ifeq,
    .op Opcode.iconst0, .placeJump ⟨0, 88⟩, .endCode, .endMethod]

theorem backpatched_run_hopping :
    (∀ request ∈ [.finishPool, .placeJump ⟨0, 88⟩, .endCode, .endMethod],
      request ∈ (run hopping).journal.map JournalEntry.request) ∧
    (run hopping).journal.Tidy ∧ (run hopping).session.position < 4294967296 ∧
    (run hopping).journal.Backpatched (run hopping).session := by
  have htidy : (run hopping).journal.Tidy := by decide
  have hsize : (run hopping).session.position < 4294967296 := by decide
  exact ⟨by decide, htidy, hsize, backpatched_run hopping htidy hsize⟩

end Ledger

end Collation
