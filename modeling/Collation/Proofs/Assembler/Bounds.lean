/-
  File:      Collation/Proofs/Assembler/Bounds.lean
  Subject:   Access past the end of the bytes.

  An operation reaches for bytes that were written before: to fill in a field, to count what stands
  behind one, to place a jump, or because the caller asks for it.  If the bytes are not there, it does
  not refuse but breaks off.  The fields that a session keeps are always there, so this is left to the
  places that the caller names, and of these a jump site is safe in the session that issued it.

  * `Request.Oversteps` -- the request names a place past the end, and nothing else stops it first;
  * `Assembly.fails_perform_iff` -- one request from a sound session;
  * **`Ledger.breaks_off_iff`** -- after any requests, a request breaks off if and only if it oversteps;
    no site that was issued since the session was last cleared does; and the pool keeps its limit;
  * `Ledger.breaks_off_borrowed` -- a site of another session may do so.
-/
import Collation.Proofs.Assembler.Journal

namespace Collation

/-! ## 1. One request -/

/-- The request names a place that is not all written, and nothing else stops it first. -/
def Request.Oversteps (s : Session) : Request → Prop
  | .overwrite16 p _ => s.position < p + 2
  | .overwrite32 p _ => s.position < p + 4
  | .byteAt p => s.position < p + 1
  | .placeJump site => ∃ m field, s.openCode = .ok (m, field) ∧
      site.instructionOffset < s.position - m.codeStart ∧
      s.position - m.codeStart - site.instructionOffset ≤ Assembly.maxJump ∧
      s.position < site.operandPosition + 2
  | _ => False

namespace Assembly

variable {α β : Type} {x : Assembly α} {s : Session} {cause : Failure}

theorem Runs.not_fails {a : α} {t : Session} (h : Runs x s a t) : ¬ Fails x s cause := by
  rintro ⟨u, hfails⟩
  cases h.symm.trans hfails

theorem Decides.not_breaks_off {P : α → Session → Prop} (h : Decides x s P) :
    ¬ Fails x s .outOfBounds := by
  rcases h with ⟨a, t, hrun, _⟩ | ⟨fault, he⟩
  · exact hrun.not_fails
  · rintro ⟨u, hfails⟩
    cases he.symm.trans hfails

theorem fails_map_iff (g : α → β) : Fails (g <$> x) s cause ↔ Fails x s cause := by
  constructor
  · intro h
    cases hx : x s with
    | ok a t => exact absurd h (Runs.map (show Runs x s a t from hx) g).not_fails
    | error e t =>
      obtain ⟨u, hu⟩ := h
      cases (map_eq_error hx g).symm.trans hu
      exact ⟨t, hx⟩
  · rintro ⟨t, hx⟩
    exact ⟨t, map_eq_error hx g⟩

theorem fails_done_iff {x : Assembly Unit} : Fails (done x) s cause ↔ Fails x s cause := by
  constructor
  · intro h
    cases hx : x s with
    | ok a t => exact absurd h (Runs.done (show Runs x s a t from hx)).not_fails
    | error e t =>
      obtain ⟨u, hu⟩ := h
      cases (done_eq_error hx).symm.trans hu
      exact ⟨t, hx⟩
  · rintro ⟨t, hx⟩
    exact ⟨t, done_eq_error hx⟩

theorem fails_overwrite_iff {p : Nat} {vs : List UInt8} :
    Fails (overwrite p vs) s .outOfBounds ↔ s.position < p + vs.length := by
  unfold Fails overwrite
  by_cases hp : p + vs.length ≤ s.position
  · rw [if_pos hp]
    refine ⟨fun h => ?_, fun h => absurd hp (Nat.not_le.mpr h)⟩
    obtain ⟨t, ht⟩ := h
    cases ht
  · rw [if_neg hp]
    exact ⟨fun _ => Nat.lt_of_not_le hp, fun _ => ⟨s, rfl⟩⟩

theorem fails_byteAt_iff {p : Nat} : Fails (byteAt p) s .outOfBounds ↔ s.position < p + 1 := by
  unfold Fails byteAt Buffer.get?
  by_cases hp : p < s.buffer.bytes.size
  · rw [Array.getElem?_eq_getElem hp]
    refine ⟨fun h => ?_, fun h => absurd (Nat.lt_of_succ_le hp) (Nat.not_lt.mpr (Nat.le_of_lt_succ h))⟩
    obtain ⟨t, ht⟩ := h
    cases ht
  · rw [Array.getElem?_eq_none (Nat.le_of_not_lt hp)]
    exact ⟨fun _ => Nat.lt_succ_of_le (Nat.le_of_not_lt hp), fun _ => ⟨s, rfl⟩⟩

/-- In open code, the place of the operand is looked at last, after the way to go. -/
theorem fails_placeJump_of_openCode (hs : s.Sound) {m : OpenMethod} {field : Reserved32}
    (ho : s.openCode = .ok (m, field)) (site : JumpSite) :
    Fails (placeJump site) s .outOfBounds ↔
      site.instructionOffset < s.position - m.codeStart ∧
      s.position - m.codeStart - site.instructionOffset ≤ maxJump ∧
      s.position < site.operandPosition + 2 := by
  have hmethod := (Session.method_of_openCode ho).1
  have hoffset : Runs codeOffset s (s.position - m.codeStart) s := by
    unfold Runs codeOffset
    rw [ho]
    exact if_pos (hs.method m hmethod).code
  unfold Fails placeJump
  rw [hoffset.bind_eq]
  dsimp only
  by_cases hback : s.position - m.codeStart ≤ site.instructionOffset
  · rw [if_pos hback]
    constructor
    · rintro ⟨t, ht⟩
      cases ht
    · rintro ⟨hahead, _⟩
      omega
  rw [if_neg hback]
  by_cases hfar : maxJump < s.position - m.codeStart - site.instructionOffset
  · rw [if_pos hfar]
    constructor
    · rintro ⟨t, ht⟩
      cases ht
    · rintro ⟨_, hnear, _⟩
      omega
  rw [if_neg hfar]
  constructor
  · intro hfails
    refine ⟨Nat.lt_of_not_le hback, Nat.le_of_not_lt hfar, ?_⟩
    by_contra hroom
    obtain ⟨_, t, hrun, _⟩ := succeeds_overwrite hs
      (Word.bytes16 (UInt16.ofNat (s.position - m.codeStart - site.instructionOffset)))
      (Nat.le_of_not_lt hroom)
    exact (hrun.bind (runs_pure (s.position - m.codeStart) t)).not_fails hfails
  · rintro ⟨_, _, hroom⟩
    exact (fails_overwrite_iff.mpr hroom).bind _

theorem fails_placeJump_iff (hs : s.Sound) (site : JumpSite) :
    Fails (placeJump site) s .outOfBounds ↔ (Request.placeJump site).Oversteps s := by
  cases ho : s.openCode with
  | error fault =>
    have hrefused : codeOffset s = .error (.refused (.misuse fault)) s := by
      unfold codeOffset
      rw [ho]
      rfl
    constructor
    · rintro ⟨t, ht⟩
      cases (bind_eq_error hrefused _).symm.trans ht
    · rintro ⟨m, field, hopen, _⟩
      cases ho.symm.trans hopen
  | ok opened =>
    obtain ⟨m, field⟩ := opened
    rw [fails_placeJump_of_openCode hs ho]
    constructor
    · exact fun hover => ⟨m, field, ho, hover⟩
    · rintro ⟨m', field', hopen, hover⟩
      cases ho.symm.trans hopen
      exact hover

/-- **One request** breaks off if and only if it oversteps. -/
theorem fails_perform_iff (hs : s.Sound) (request : Request) :
    Fails (perform request) s .outOfBounds ↔ request.Oversteps s := by
  by_cases haddresses : request.addresses = false
  · have hwithin : ¬ request.Oversteps s := by
      cases request <;> first | exact id | cases haddresses
    exact ⟨fun h => absurd h (decides_perform hs haddresses).not_breaks_off, fun h => absurd h hwithin⟩
  cases request with
  | placeJump site => exact (fails_map_iff _).trans (fails_placeJump_iff hs site)
  | overwrite16 p value => exact fails_done_iff.trans fails_overwrite_iff
  | overwrite32 p value => exact fails_done_iff.trans fails_overwrite_iff
  | byteAt p => exact (fails_map_iff _).trans fails_byteAt_iff
  | _ => exact absurd rfl haddresses

end Assembly

/-! ## 2. Runs -/

namespace Ledger

/-- **No request breaks off but for a place that its caller names.**  Whatever was asked before, in
    whatever order, and whatever came of it: a request breaks off exactly if it oversteps, which only
    the requests can do that name a place, and placing a jump only with a site that the session did
    not issue since it was last cleared.  The number of constants never passes its limit. -/
theorem breaks_off_iff (requests : List Request) :
    (∀ request, Assembly.Fails (Assembly.perform request) (run requests).session .outOfBounds ↔
      request.Oversteps (run requests).session) ∧
    (∀ site ∈ (run requests).journal.sites,
      ¬ (Request.placeJump site).Oversteps (run requests).session) ∧
    (run requests).session.poolCount ≤ Assembly.poolLimit := by
  have htrail := trail_run requests
  refine ⟨Assembly.fails_perform_iff (sound_run requests), ?_, htrail.poolCount_le (by decide)⟩
  rintro site hsite ⟨_, _, _, _, _, hover⟩
  have hbounds := htrail.site_bounds hsite
  omega

/-- The beginning of a class, with two bytes of the code of a method. -/
def begun : List Request :=
  [.setupPool, .finishPool, .beginMethod .public 3 4 1 1, .op Opcode.iconst0, .op Opcode.iconst0]

/-- There the site passes every check but the last. -/
theorem oversteps_of_begun {s : Session} (hmethod : s.method = some ⟨⟨74⟩, some ⟨82⟩, 86⟩)
    (hposition : s.position = 88) : (Request.placeJump ⟨1, 88⟩).Oversteps s := by
  have hopen : s.openCode = .ok (⟨⟨74⟩, some ⟨82⟩, 86⟩, ⟨82⟩) := by
    unfold Session.openCode Session.openMethod
    rw [hmethod]
  refine ⟨_, _, hopen, ?_⟩
  rw [hposition]
  decide

/-- A site is issued, and the session is cleared and used for another class. -/
def stale : List Request := Bench.straying ++ .clear :: begun

/-- As long as the session is not cleared the site does no harm; afterwards it does. -/
theorem breaks_off_iff_stale :
    (⟨1, 88⟩ : JumpSite) ∈ (run Bench.straying).journal.sites ∧
    ¬ Assembly.Fails (Assembly.perform (.placeJump ⟨1, 88⟩)) (run Bench.straying).session
      .outOfBounds ∧
    Assembly.Fails (Assembly.perform (.placeJump ⟨1, 88⟩)) (run stale).session .outOfBounds := by
  have hissued : (⟨1, 88⟩ : JumpSite) ∈ (run Bench.straying).journal.sites := by decide
  have hover : (Request.placeJump ⟨1, 88⟩).Oversteps (run stale).session :=
    oversteps_of_begun (by decide) (by decide)
  obtain ⟨hiff, hsites, _⟩ := breaks_off_iff Bench.straying
  refine ⟨hissued, fun hfails => hsites _ hissued ((hiff _).mp hfails), ?_⟩
  exact ((breaks_off_iff stale).1 _).mpr hover

/-- A site can break off a session that was never cleared, if it comes from another session, which was
    never cleared either. -/
theorem breaks_off_borrowed :
    Request.clear ∉ Bench.straying ∧ Request.clear ∉ begun ∧
    (⟨1, 88⟩ : JumpSite) ∈ (run Bench.straying).journal.sites ∧
    Assembly.Fails (Assembly.perform (.placeJump ⟨1, 88⟩)) (run begun).session .outOfBounds := by
  have hover : (Request.placeJump ⟨1, 88⟩).Oversteps (run begun).session :=
    oversteps_of_begun (by decide) (by decide)
  exact ⟨by decide, by decide, by decide, (Assembly.fails_perform_iff (sound_run begun) _).mpr hover⟩

end Ledger

end Collation
