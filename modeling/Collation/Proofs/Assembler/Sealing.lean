/-
  File:      Collation/Proofs/Assembler/Sealing.lean
  Subject:   The bytes of a method after it was ended.

  A session has no more to do with a method that was ended: what comes later is written behind it, and
  its fields are filled in.  What can still reach its bytes is a jump that was left without a target.
  Its site stays with the caller, and it is accepted in any other method in which the way from the
  same offset leads ahead; it is then the operand in the ended method that changes.

  * **`Ledger.ended_method_kept`** -- every byte of an ended method stays, but for the operands of its
    own jumps that are placed after its end;
  * `Ledger.ended_method_altered` -- such a placement succeeds, and changes the method.
-/
import Collation.Proofs.Assembler.Backpatch

namespace Collation

/-- Of the requests that use sites, only placing a jump replaces bytes. -/
theorem Request.Uses.exists_of_rewrites {sites : List JumpSite} {request : Request} {i : Nat}
    (h : request.Uses sites) (hrewrites : request.Rewrites i) :
    ∃ site ∈ sites, request = .placeJump site ∧ site.operandPosition ≤ i ∧
      i < site.operandPosition + 2 := by
  cases request with
  | placeJump site => exact ⟨site, h.2 site rfl, rfl, hrewrites⟩
  | overwrite16 _ _ | overwrite32 _ _ => exact absurd rfl h.1
  | _ => exact False.elim hrewrites

namespace Session

variable {s t : Session} {later earlier : Journal} {e o : JournalEntry} {site : JumpSite}

/-- **A site that points into an ended method was issued in it.** -/
theorem Trail.mem_inside_of_points (h : Session.empty.Trail (later ++ e :: earlier) t)
    (hend : e.request = .endMethod) (ho : earlier.opening? = some o)
    (hsite : site ∈ Journal.sites (later ++ e :: earlier))
    (hfrom : o.before.position < site.operandPosition + 2)
    (hto : site.operandPosition < e.after.position) : site ∈ Journal.sites earlier.inside := by
  obtain ⟨hearlier, _, hlater⟩ := h.at_entry
  obtain ⟨before, hcut, hbefore, _, _⟩ := hearlier.at_opening ho
  have hkind : e.request.kind ≠ .jump := by
    rw [hend]
    decide
  have hopening : o.request.kind ≠ .jump := by
    rw [(Journal.exists_of_opening? ho).1]
    decide
  rw [Journal.sites_append, Journal.sites_cons_of_ne _ hkind, hcut, Journal.sites_append,
    Journal.sites_cons_of_ne _ hopening] at hsite
  rcases List.mem_append.mp hsite with hsite | hsite
  · -- issued after the end: it points behind the method
    have hbounds := hlater.site_bounds hsite
    omega
  rcases List.mem_append.mp hsite with hsite | hsite
  · exact hsite
  · -- issued before the opening: it points before the method
    have hbounds := hbefore.site_bounds hsite
    omega

end Session

namespace Ledger

/-- **An ended method keeps its bytes, but for its own jumps.**  Whatever is asked after the end of a
    method, as long as no bytes are overwritten and jumps are placed only by sites of this session:
    a byte of the method is as it was at its end, or it belongs to the operand of a jump of this very
    method that was placed after the end. -/
theorem ended_method_kept (requests : List Request) {later earlier : Journal} {e : JournalEntry}
    (hjournal : (run requests).journal = later ++ e :: earlier) (hend : e.request = .endMethod)
    (hlater : ∀ x ∈ later, x.request.Uses (run requests).journal.sites) :
    ∃ o, earlier.opening? = some o ∧ ∀ i, o.before.position ≤ i → i < e.after.position →
      (run requests).session.buffer.get? i = e.after.buffer.get? i ∨
      ∃ x ∈ later, ∃ site ∈ Journal.sites earlier.inside, x.request = .placeJump site ∧
        site.operandPosition ≤ i ∧ i < site.operandPosition + 2 := by
  have htrail := trail_run requests
  rw [hjournal] at htrail hlater
  obtain ⟨hearlier, hstep, hafter⟩ := htrail.at_entry
  obtain ⟨o, _, ho, _, _, hr⟩ := hearlier.of_endMethod (hend ▸ hstep)
  refine ⟨o, ho, fun i hlo hhi => ?_⟩
  by_cases hrewritten : ∃ x ∈ later, x.request.Rewrites i
  · obtain ⟨x, hx, hrewrites⟩ := hrewritten
    obtain ⟨site, hsite, hplace, hfrom, hto⟩ := (hlater x hx).exists_of_rewrites hrewrites
    have hinside := htrail.mem_inside_of_points hend ho hsite (by omega) (by omega)
    exact .inr ⟨x, hx, site, hinside, hplace, hfrom, hto⟩
  · refine .inl (hafter.get?_eq hr hlo hhi fun x hx hrewrites => ?_)
    exact hrewritten ⟨x, hx, hrewrites⟩

/-- A jump that one method leaves without a target is placed in the next. -/
def astray : List Request :=
  [.setupPool, .beginMethod .public 3 4 1 1, .jump Opcode.ifeq, .endCode, .endMethod,
    .beginMethod .public 3 4 1 1, .op Opcode.iconst0, .placeJump ⟨0, 87⟩]

/-- The journal, cut where the first method was ended: its 25 bytes from 64 on end with an operand of
    zeros, which is no longer zero at the end of the run. -/
theorem cut_astray :
    ∃ (later earlier : Journal) (e o : JournalEntry),
      (run astray).journal = later ++ e :: earlier ∧ e.request = .endMethod ∧
      (∀ x ∈ later, x.request.Uses (run astray).journal.sites) ∧ earlier.opening? = some o ∧
      o.before.position = 64 ∧ e.after.position = 89 ∧
      e.after.buffer.get? 88 = some 0 ∧ (run astray).session.buffer.get? 88 = some 1 := by
  have hrun : (run astray).journal[3]?.map (fun e =>
        (e.request, e.after.position, e.after.buffer.get? 88)) = some (.endMethod, 89, some 0) ∧
      (Journal.opening? ((run astray).journal.drop 4)).map (fun o => o.before.position) = some 64 ∧
      (∀ x ∈ (run astray).journal.take 3, x.request.Uses (run astray).journal.sites) ∧
      (run astray).session.buffer.get? 88 = some 1 := by
    decide +kernel
  obtain ⟨hend, hopening, huses, hbyte⟩ := hrun
  obtain ⟨e, he, hfacts⟩ := Option.map_eq_some_iff.mp hend
  obtain ⟨o, ho, hposition⟩ := Option.map_eq_some_iff.mp hopening
  obtain ⟨hlt, rfl⟩ := List.getElem?_eq_some_iff.mp he
  have hcut := List.take_append_drop 3 (run astray).journal
  rw [List.drop_eq_getElem_cons hlt] at hcut
  simp only [Prod.mk.injEq] at hfacts
  obtain ⟨hrequest, hafter, hbefore⟩ := hfacts
  exact ⟨_, _, _, o, hcut.symm, hrequest, huses, ho, hposition, hafter, hbefore, hbyte⟩

theorem ended_method_kept_astray :
    ∃ (later earlier : Journal) (e o : JournalEntry),
      (run astray).journal = later ++ e :: earlier ∧ e.request = .endMethod ∧
      (∀ x ∈ later, x.request.Uses (run astray).journal.sites) ∧ earlier.opening? = some o ∧
      ∀ i, 64 ≤ i → i < 89 →
        (run astray).session.buffer.get? i = e.after.buffer.get? i ∨
        ∃ x ∈ later, ∃ site ∈ Journal.sites earlier.inside, x.request = .placeJump site ∧
          site.operandPosition ≤ i ∧ i < site.operandPosition + 2 := by
  obtain ⟨later, earlier, e, o, hjournal, hend, huses, ho, hfrom, hto, _⟩ := cut_astray
  obtain ⟨o', ho', hkept⟩ := ended_method_kept astray hjournal hend huses
  cases ho.symm.trans ho'
  rw [hfrom, hto] at hkept
  exact ⟨later, earlier, e, o, hjournal, hend, huses, ho, hkept⟩

/-- **Not every byte of an ended method is kept**: the jump is accepted in the second method, and its
    operand in the first becomes the way that it would go in the second. -/
theorem ended_method_altered :
    ¬ ∀ (later earlier : Journal) (e o : JournalEntry),
      (run astray).journal = later ++ e :: earlier → e.request = .endMethod →
      (∀ x ∈ later, x.request.Uses (run astray).journal.sites) → earlier.opening? = some o →
      ∀ i, o.before.position ≤ i → i < e.after.position →
        (run astray).session.buffer.get? i = e.after.buffer.get? i := by
  intro hkept
  obtain ⟨later, earlier, e, o, hjournal, hend, huses, ho, hfrom, hto, hbefore, hafter⟩ := cut_astray
  have hsame := hkept later earlier e o hjournal hend huses ho 88 (by omega) (by omega)
  rw [hbefore, hafter] at hsame
  cases hsame

end Ledger

end Collation
