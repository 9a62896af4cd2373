/-
  File:      Collation/Proofs/Assembler/Journal.lean
  Subject:   The calls of a session, one by one.

  A ledger keeps, beside a bench, the journal of the calls that succeeded since the session was last
  cleared, the latest first.  Two requests make calls themselves: the one that sets up the pool and
  the one that writes the default constructor.  The calls that they make stand in the journal too,
  each before the request that made it.

  * `Ledger.run`, `Journal` -- requests one after another, with the journal;
  * `Ledger.toBench_run` -- keeping a journal changes nothing;
  * `Journal.sites`, `Journal.opening?` -- what a journal tells: the sites that were issued, the method
    that was opened last;
  * `Session.Trail` -- a journal as a chain of steps;
  * **`Ledger.trail_run`** -- every journal is such a chain, from the empty session to the present.
-/
import Collation.Proofs.Assembler.RoundTrip
import Collation.Proofs.Assembler.Steps
import Mathlib.Data.List.Induction

namespace Collation

/-! ## 1. The journal -/

/-- A call that succeeded: what was asked and answered, and the session before it and after it. -/
structure JournalEntry where
  before : Session
  request : Request
  reply : Reply
  after : Session
  deriving DecidableEq, Repr

/-- Calls that succeeded, the latest first. -/
abbrev Journal := List JournalEntry

/-- The calls that a request makes itself. -/
def Request.inner (s : Session) : Request → List Request
  | .setupPool => .beginClass .written :: Assembly.setupConstants.map .addConstant
  | .defineDefaultConstructor =>
    match s.standard with
    | none => []
    | some standard =>
      [.beginMethod .public standard.initName standard.initDescriptor 1 1, .op Opcode.aload0,
        .op Opcode.invokespecial, .putU16 standard.objectInit, .op Opcode.return_, .endCode,
        .codeAttributes 0, .endMethod]
  | _ => []

/-- A bench, and the calls that succeeded since its session was last cleared, the latest first. -/
structure Ledger extends Bench where
  journal : Journal
  deriving DecidableEq, Repr

/-- The site that a call issued. -/
def JournalEntry.site? (e : JournalEntry) : Option JumpSite :=
  match e.request, e.reply with
  | .jump _, .site site => some site
  | _, _ => none

namespace Journal

variable (journal : Journal)

/-- The jump sites that were issued. -/
def sites : List JumpSite := journal.filterMap JournalEntry.site?

/-- How many constants were added. -/
def added : Nat := journal.countP fun e => e.request.kind = .constant

/-- The call that began the class. -/
def header? : Option JournalEntry := journal.find? fun e => e.request.kind = .header

/-- The call that opened a method last. -/
def opening? : Option JournalEntry := journal.find? fun e => e.request.kind = .opening

/-- The calls since a method was last opened. -/
def inside : Journal := journal.takeWhile fun e => e.request.kind ≠ .opening

theorem sites_append (later : Journal) :
    sites (later ++ journal) = sites later ++ sites journal :=
  List.filterMap_append

theorem sites_cons_of_ne {e : JournalEntry} (h : e.request.kind ≠ .jump) :
    sites (e :: journal) = sites journal := by
  have hnone : e.site? = none := by
    unfold JournalEntry.site?
    split
    · next hrequest _ =>
      rw [hrequest] at h
      exact absurd rfl h
    · rfl
  exact List.filterMap_cons_none hnone

theorem added_cons (e : JournalEntry) :
    added (e :: journal) = added journal + if e.request.kind = .constant then 1 else 0 := by
  simp only [added, List.countP_cons, decide_eq_true_eq]

theorem header?_cons (e : JournalEntry) :
    header? (e :: journal) = if e.request.kind = .header then some e else header? journal := by
  by_cases h : e.request.kind = .header <;> simp [header?, h]

theorem opening?_cons (e : JournalEntry) :
    opening? (e :: journal) = if e.request.kind = .opening then some e else opening? journal := by
  by_cases h : e.request.kind = .opening <;> simp [opening?, h]

/-- Before the calls since a method was opened stands the call that opened it. -/
theorem exists_of_opening? {journal : Journal} {o : JournalEntry} (h : journal.opening? = some o) :
    o.request.kind = .opening ∧ ∃ earlier, journal = journal.inside ++ o :: earlier := by
  obtain ⟨hkind, since, earlier, rfl, hsince⟩ := List.find?_eq_some_iff_append.mp h
  have hopening : o.request.kind = .opening := of_decide_eq_true hkind
  refine ⟨hopening, earlier, ?_⟩
  have hinside : inside (since ++ o :: earlier) = since := by
    unfold inside
    rw [List.takeWhile_append_of_pos (fun e he => by simpa using hsince e he),
      List.takeWhile_cons_of_neg (by simp [hopening]), List.append_nil]
  rw [hinside]

end Journal

namespace Ledger

/-- The ledger after a call that makes no calls itself. -/
def record (l : Ledger) (request : Request) : Ledger :=
  ⟨l.toBench.after request,
    match Assembly.perform request l.session with
    | .ok reply t => ⟨l.session, request, reply, t⟩ :: l.journal
    | .error _ _ => l.journal⟩

/-- The ledger after a request, whether it succeeded or not. -/
def after (l : Ledger) (request : Request) : Ledger :=
  ⟨l.toBench.after request,
    match Assembly.perform request l.session with
    | .ok reply t =>
      if request = .clear then []
      else
        let inside := (request.inner l.session).foldl record l
        ⟨inside.session, request, reply, t⟩ :: inside.journal
    | .error _ _ => l.journal⟩

/-- Requests one after another, from an empty session. -/
def run (requests : List Request) : Ledger := requests.foldl after ⟨⟨.empty, []⟩, []⟩

theorem run_concat (requests : List Request) (request : Request) :
    run (requests ++ [request]) = (run requests).after request :=
  List.foldl_concat ..

/-- **Keeping a journal changes nothing** in what the requests do. -/
theorem toBench_run (requests : List Request) : (run requests).toBench = Bench.run requests :=
  (List.foldl_hom toBench fun _ _ => rfl).symm

theorem sound_run (requests : List Request) : (run requests).session.Sound := by
  rw [toBench_run]
  exact Bench.sound_run requests

end Ledger

/-! ## 2. Journals as chains of steps -/

namespace Session

/-- From `s₀` the calls of the journal lead to a session, step by step. -/
inductive Trail (s₀ : Session) : Journal → Session → Prop where
  | nil : Trail s₀ [] s₀
  | cons {journal : Journal} {s t : Session} {request : Request} {reply : Reply}
    (h : Trail s₀ journal s) (hstep : s.Step request reply t) :
    Trail s₀ (⟨s, request, reply, t⟩ :: journal) t

/-- A journal is cut in two where some of its calls were made. -/
theorem Trail.split {s₀ t : Session} {later earlier : Journal} (h : s₀.Trail (later ++ earlier) t) :
    ∃ s, s₀.Trail earlier s ∧ s.Trail later t := by
  induction later generalizing t with
  | nil => exact ⟨t, h, .nil⟩
  | cons e later ih =>
    cases h with
    | cons h hstep =>
      obtain ⟨s, hearlier, hlater⟩ := ih h
      exact ⟨s, hearlier, .cons hlater hstep⟩

/-- A journal is cut in three at one of its calls. -/
theorem Trail.at_entry {s₀ t : Session} {later earlier : Journal} {e : JournalEntry}
    (h : s₀.Trail (later ++ e :: earlier) t) :
    s₀.Trail earlier e.before ∧ e.before.Step e.request e.reply e.after ∧ e.after.Trail later t := by
  obtain ⟨s, hearlier, hlater⟩ := h.split
  cases hearlier with
  | cons hbefore hstep => exact ⟨hbefore, hstep, hlater⟩

theorem Trail.append {s₀ s t : Session} {later earlier : Journal} (h : s₀.Trail earlier s)
    (hlater : s.Trail later t) : s₀.Trail (later ++ earlier) t := by
  induction hlater with
  | nil => exact h
  | cons _ hstep ih => exact .cons ih hstep

theorem Trail.position_le {s₀ t : Session} {journal : Journal} (h : s₀.Trail journal t) :
    s₀.position ≤ t.position := by
  induction h with
  | nil => exact Nat.le_refl _
  | cons _ hstep ih => exact Nat.le_trans ih hstep.position_le

theorem Trail.poolCount_le {s₀ t : Session} {journal : Journal} (h : s₀.Trail journal t)
    (hs : s₀.poolCount ≤ Assembly.poolLimit) : t.poolCount ≤ Assembly.poolLimit := by
  induction h with
  | nil => exact hs
  | cons _ hstep ih =>
    rcases hstep.poolCount_cases with ⟨_, hsame⟩ | ⟨_, _, hroom, _, hmore⟩ <;> omega

/-- **A site points at the bytes that were written when it was issued.** -/
theorem Trail.site_bounds {s₀ t : Session} {journal : Journal} (h : s₀.Trail journal t)
    {site : JumpSite} (hsite : site ∈ journal.sites) :
    s₀.position < site.operandPosition ∧ site.operandPosition + 2 ≤ t.position := by
  induction h with
  | nil => cases hsite
  | @cons journal s t request reply h hstep ih =>
    have hle := h.position_le
    have hle' := hstep.position_le
    obtain ⟨e, he, hissued⟩ := List.mem_filterMap.mp hsite
    rcases List.mem_cons.mp he with rfl | he
    · -- the site is the latest: it points behind all that was written before
      unfold JournalEntry.site? at hissued
      split at hissued
      · next opcode issued hrequest hreply =>
        obtain rfl : request = .jump opcode := hrequest
        obtain rfl : reply = .site issued := hreply
        cases hissued
        obtain ⟨hfrom, hto⟩ := hstep.of_jump
        omega
      · cases hissued
    · obtain ⟨hfrom, hto⟩ := ih (List.mem_filterMap.mpr ⟨e, he, hissued⟩)
      omega

end Session

namespace Ledger

open Assembly

variable {l : Ledger} {request : Request} {reply : Reply} {t : Session}

theorem record_of_runs (h : Runs (perform request) l.session reply t) :
    l.record request = ⟨⟨t, reply.hand (request.spend l.held)⟩,
      ⟨l.session, request, reply, t⟩ :: l.journal⟩ := by
  unfold record Bench.after
  rw [show perform request l.session = .ok reply t from h]

theorem trail_record (hs : l.session.Sound) (h : Session.empty.Trail l.journal l.session)
    (hsingle : request.isSingle = true) :
    Session.empty.Trail (l.record request).journal (l.record request).session := by
  rcases atomic_perform hs request with ⟨reply, t, hrun, _⟩ | ⟨e, he⟩
  · rw [record_of_runs hrun]
    exact h.cons (step_of_runs hs hsingle hrun)
  · unfold record Bench.after
    rw [he]
    exact h

theorem isSingle_of_mem_inner {s : Session} {call : Request} (h : call ∈ request.inner s) :
    call.isSingle = true := by
  cases request with
  | setupPool =>
    rcases List.mem_cons.mp h with rfl | h
    · rfl
    · obtain ⟨c, _, rfl⟩ := List.mem_map.mp h
      rfl
  | defineDefaultConstructor =>
    unfold Request.inner at h
    cases hstd : s.standard with
    | none =>
      rw [hstd] at h
      cases h
    | some std =>
      rw [hstd] at h
      simp only [List.mem_cons, List.not_mem_nil, or_false] at h
      rcases h with rfl | rfl | rfl | rfl | rfl | rfl | rfl | rfl <;> rfl
  | _ => cases h

theorem trail_foldl_record (hs : l.session.Sound) (h : Session.empty.Trail l.journal l.session)
    {calls : List Request} (hsingle : ∀ call ∈ calls, call.isSingle = true) :
    Session.empty.Trail (calls.foldl record l).journal (calls.foldl record l).session := by
  induction calls generalizing l with
  | nil => exact h
  | cons call calls ih =>
    have hcall := trail_record hs h (hsingle call List.mem_cons_self)
    exact ih (Bench.sound_after hs call) hcall fun other hother =>
      hsingle other (List.mem_cons_of_mem _ hother)

end Ledger

/-! ## 3. Requests that make calls -/

namespace Assembly

variable {s t u : Session}

/-- The calls succeed one after the other, whatever they answer. -/
def AllRun (calls : List Request) (s t : Session) : Prop := ∃ replies, Runs (performAll calls) s replies t

theorem allRun_nil (s : Session) : AllRun [] s s := ⟨[], runs_pure _ _⟩

theorem AllRun.cons {call : Request} {calls : List Request} {reply : Reply}
    (h : Runs (perform call) s reply t) (hrest : AllRun calls t u) : AllRun (call :: calls) s u := by
  obtain ⟨replies, hrest⟩ := hrest
  exact ⟨reply :: replies, runs_performAll_cons h hrest⟩

/-- A constant gets the next index, and the pool stays open. -/
theorem exists_of_runs_addConstant {β : Type} {c : Constant} {f : UInt16 → Assembly β} {b : β}
    {field : Reserved16} {n : Nat} (hs : s.stage = .pooling field ∧ s.poolCount = n)
    (h : Runs (addConstant c >>= f) s b u) :
    ∃ t, (t.stage = .pooling field ∧ t.poolCount = n + 1) ∧
      Runs (addConstant c) s (UInt16.ofNat n) t ∧ Runs (f (UInt16.ofNat n)) t b u := by
  obtain ⟨i, t, hadd, hrest⟩ := exists_of_runs_bind h
  obtain ⟨hstage, rfl⟩ := hs
  cases step_of_addConstant hadd with
  | writes _ _ hplain => cases hplain
  | addsConstant c vs hstage' hroom =>
    refine ⟨_, ⟨?_, ?_⟩, hadd, hrest⟩
    · exact hstage
    · rfl

/-- **The calls that setting up the pool makes**, and what it does after them. -/
theorem exists_of_runs_setupPool (hs : s.Sound) {standard : StandardPool}
    (h : Runs setupPool s standard u) :
    ∃ t, AllRun (Request.setupPool.inner s) s t ∧ t.Step .setupPool (.standard standard) u := by
  obtain ⟨_, s₀, h₀, next₀⟩ := exists_of_runs_bind h
  obtain ⟨field, p₀⟩ : ∃ field, s₀.stage = .pooling field ∧ s₀.poolCount = 1 := by
    cases step_of_beginClass h₀ with
    | writes _ _ hplain => cases hplain
    | beginsClass version header hlength hstage => exact ⟨_, rfl, hs.fresh hstage⟩
  obtain ⟨s₁, p₁, h₁, next₁⟩ := exists_of_runs_addConstant p₀ next₀
  obtain ⟨s₂, p₂, h₂, next₂⟩ := exists_of_runs_addConstant p₁ next₁
  obtain ⟨s₃, p₃, h₃, next₃⟩ := exists_of_runs_addConstant p₂ next₂
  obtain ⟨s₄, p₄, h₄, next₄⟩ := exists_of_runs_addConstant p₃ next₃
  obtain ⟨s₅, p₅, h₅, next₅⟩ := exists_of_runs_addConstant p₄ next₄
  obtain ⟨s₆, p₆, h₆, next₆⟩ := exists_of_runs_addConstant p₅ next₅
  obtain ⟨s₇, p₇, h₇, next₇⟩ := exists_of_runs_addConstant p₆ next₆
  obtain ⟨_, _, hmodify, hpure⟩ := exists_of_runs_bind next₇
  obtain ⟨rfl, rfl⟩ := Runs.unique hmodify (runs_modify _ _)
  obtain ⟨rfl, rfl⟩ := Runs.unique hpure (runs_pure _ _)
  refine ⟨s₇, .cons h₀.done ?_, .setsUp _ p₇.1⟩
  exact .cons (h₁.map _) (.cons (h₂.map _) (.cons (h₃.map _) (.cons (h₄.map _)
    (.cons (h₅.map _) (.cons (h₆.map _) (.cons (h₇.map _) (allRun_nil s₇)))))))

/-- **The calls that writing the default constructor makes** are all that it does. -/
theorem allRun_of_runs_defineDefaultConstructor (h : Runs defineDefaultConstructor s () t) :
    AllRun (Request.defineDefaultConstructor.inner s) s t := by
  obtain ⟨std, s₀, hstandard, next₀⟩ := exists_of_runs_bind h
  obtain ⟨hstd, rfl⟩ := eq_of_runs_standardPool hstandard
  obtain ⟨_, s₁, h₁, next₁⟩ := exists_of_runs_bind next₀
  obtain ⟨_, s₂, h₂, next₂⟩ := exists_of_runs_bind next₁
  obtain ⟨_, s₃, h₃, next₃⟩ := exists_of_runs_bind next₂
  obtain ⟨_, s₄, h₄, next₄⟩ := exists_of_runs_bind next₃
  obtain ⟨_, s₅, h₅, next₅⟩ := exists_of_runs_bind next₄
  obtain ⟨_, s₆, h₆, h₇⟩ := exists_of_runs_bind next₅
  -- the call of the root's constructor is emitted in two pieces
  obtain ⟨⟨m, field, ho⟩, rfl⟩ := eq_of_runs_emit h₃
  have hopcode : Runs (emit [Opcode.invokespecial]) s₂ () (s₂.append [Opcode.invokespecial]) := by
    unfold Runs emit
    rw [ho]
    rfl
  have hoperand : Runs (write (Word.bytes16 std.objectInit)) (s₂.append [Opcode.invokespecial]) ()
      (s₂.append (Encode.invokespecial std.objectInit)) := by
    refine (runs_append _ _).trans ?_
    rw [Session.append_append]
    rfl
  unfold Request.inner
  rw [hstd]
  exact .cons h₁.done (.cons h₂.done (.cons hopcode.done (.cons hoperand.done (.cons h₄.done
    (.cons h₅.done (.cons h₆.done (.cons h₇.done (allRun_nil t))))))))

end Assembly

namespace Ledger

open Assembly

variable {l : Ledger} {request : Request} {reply : Reply} {t : Session}

/-- The session that calls lead to, if each of them succeeds. -/
theorem session_foldl_record {calls : List Request} (h : AllRun calls l.session t) :
    (calls.foldl Ledger.record l).session = t := by
  induction calls generalizing l with
  | nil =>
    obtain ⟨replies, h⟩ := h
    exact (Runs.unique (runs_pure _ _) h).2
  | cons call calls ih =>
    obtain ⟨replies, h⟩ := h
    obtain ⟨reply, u, rest, rfl, hcall, hrest⟩ := exists_of_runs_cons h
    rw [List.foldl_cons, record_of_runs hcall]
    exact ih ⟨rest, hrest⟩

/-- A request is a step after the calls that it makes itself. -/
theorem step_after_inner (hs : l.session.Sound) (hclear : request ≠ .clear)
    (h : Runs (perform request) l.session reply t) :
    ((request.inner l.session).foldl Ledger.record l).session.Step request reply t := by
  by_cases hsingle : request.isSingle = true
  · have hinner : request.inner l.session = [] := by
      cases request <;> first | rfl | cases hsingle
    rw [hinner]
    exact step_of_runs hs hsingle h
  cases request with
  | clear => exact absurd rfl hclear
  | setupPool =>
    obtain ⟨standard, hrun, rfl⟩ := exists_of_runs_map h
    obtain ⟨u, hcalls, hstep⟩ := exists_of_runs_setupPool hs hrun
    rw [session_foldl_record hcalls]
    exact hstep
  | defineDefaultConstructor =>
    obtain ⟨rfl, hrun⟩ := exists_of_runs_done h
    rw [session_foldl_record (allRun_of_runs_defineDefaultConstructor hrun)]
    exact step_of_eq rfl rfl
  | _ => exact absurd rfl hsingle

theorem trail_after (hs : l.session.Sound) (h : Session.empty.Trail l.journal l.session)
    (request : Request) :
    Session.empty.Trail (l.after request).journal (l.after request).session := by
  unfold after Bench.after
  rcases atomic_perform hs request with ⟨reply, t, hrun, _⟩ | ⟨e, he⟩
  · rw [show perform request l.session = .ok reply t from hrun]
    by_cases hclear : request = .clear
    · subst hclear
      cases hrun
      exact .nil
    · dsimp only
      rw [if_neg hclear]
      have hinside : Session.empty.Trail ((request.inner l.session).foldl record l).journal
          ((request.inner l.session).foldl record l).session :=
        trail_foldl_record hs h fun _ => isSingle_of_mem_inner
      exact hinside.cons (step_after_inner hs hclear hrun)
  · rw [he]
    exact h

/-- **Every journal is a chain of steps** from the empty session to the present one. -/
theorem trail_run (requests : List Request) :
    Session.empty.Trail (run requests).journal (run requests).session := by
  induction requests using List.reverseRecOn with
  | nil => exact .nil
  | append_singleton requests request ih =>
    rw [run_concat]
    exact trail_after (sound_run requests) ih request

end Ledger

end Collation
