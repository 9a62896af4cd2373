/-
  File:      Collation/Proofs/Typing/StackRoom.lean
  Subject:   The room that a method declares for its stack, and the room that its values take.

  The check keeps the frames of a method within the declared room, counting by slot types.  Values
  are counted by their own widths, and a value has the width of its type unless its type is `top`.
  No instruction puts `top` on the stack; only a stack map can.

  * `Frame.Tame` -- what the check of an instruction may do to the stack of a frame;
  * `Frame.Settled`, `Subject.Certificate.settled` -- every frame of a walk is within the room, and
    has `top` on its stack only if a stack map put it there;
  * `Machine.occupied` -- the slots that values on the stack take;
  * **`Instance.stack_within_room`** -- the stack never holds more values than there is room for, and
    takes no more slots than there are if no stack map puts `top` on the stack;
  * `Instance.stack_beyond_room` -- a method with such a stack map that takes more.
-/
import Collation.Proofs.Machine.Dispatch
import Collation.Proofs.Typing.Passing

namespace Collation

/-! ## 1. What the check does to the stack -/

namespace Frame

variable {room : UInt16} {f g h : Frame} {t : SlotType}

/-- From one frame to another: a stack that is within its room stays there, and `top` does not come
    onto the stack. -/
structure Tame (room : UInt16) (f g : Frame) : Prop where
  depth : f.depth ≤ room.toNat → g.depth ≤ room.toNat
  top : .top ∈ g.stack → .top ∈ f.stack

theorem Tame.refl : f.Tame room f := ⟨id, id⟩

theorem Tame.trans (hfg : f.Tame room g) (hgh : g.Tame room h) : f.Tame room h :=
  ⟨fun hf => hgh.depth (hfg.depth hf), fun ht => hfg.top (hgh.top ht)⟩

/-- What is pushed fits. -/
theorem fits_of_push (hp : f.push t room = .ok g) :
    g.stack = t :: f.stack ∧ g.depth ≤ room.toNat := by
  unfold push at hp
  split at hp
  · cases hp
  · cases hp
    refine ⟨rfl, ?_⟩
    rw [Subject.depth_cons]
    change t.width + f.depth ≤ room.toNat
    omega

theorem tame_push (hp : f.push t room = .ok g) (ht : t ≠ .top) : f.Tame room g := by
  obtain ⟨hstack, hdepth⟩ := fits_of_push hp
  refine ⟨fun _ => hdepth, fun htop => ?_⟩
  rw [hstack] at htop
  exact (List.mem_cons.mp htop).resolve_left fun he => ht he.symm

theorem stack_of_pop (hp : f.pop = .ok (t, g)) : f.stack = t :: g.stack := by
  unfold pop at hp
  split at hp
  · rename_i hstack
    cases hp
    exact hstack
  · cases hp

theorem tame_of_stack (hstack : f.stack = t :: g.stack) : f.Tame room g := by
  obtain ⟨locals, stack⟩ := f
  cases hstack
  refine ⟨fun hf => ?_, List.mem_cons_of_mem t⟩
  rw [Subject.depth_cons] at hf
  exact Nat.le_trans (Nat.le_add_left _ _) hf

theorem stack_of_popNarrow (hp : f.popNarrow = .ok (t, g)) : f.stack = t :: g.stack := by
  unfold popNarrow at hp
  split at hp
  · rename_i hpop
    split at hp
    · cases hp
      exact stack_of_pop hpop
    · cases hp
  · cases hp

theorem tame_setLocal {slot : Nat} (hs : f.setLocal slot t = .ok g) : f.Tame room g := by
  unfold setLocal at hs
  split at hs
  · cases hs
  · cases hs
    exact ⟨id, id⟩

theorem tame_popExpecting {file : ClassFile} (hp : file.popExpecting f t = .ok g) :
    f.Tame room g := by
  unfold ClassFile.popExpecting at hp
  split at hp
  · rename_i hpop
    split at hp
    · cases hp
      exact tame_of_stack (stack_of_pop hpop)
    · cases hp
  · cases hp

theorem tame_popAll {file : ClassFile} {ts : List SlotType} (hp : file.popAll f ts = .ok g) :
    f.Tame room g := by
  induction ts generalizing f with
  | nil =>
    cases hp
    exact .refl
  | cons t ts ih =>
    unfold ClassFile.popAll at hp
    split at hp
    · rename_i hpop
      exact (tame_popExpecting hpop).trans (ih hp)
    · cases hp

end Frame

theorem SlotType.ofField_ne_top (t : FieldType) : SlotType.ofField t ≠ .top := by
  cases t with
  | base b => cases b <;> (intro h; cases h)
  | object name =>
    intro h
    cases h
  | array n element =>
    intro h
    cases h

theorem SlotType.ne_top_of_isReference {t : SlotType} (h : t.isReference = true) : t ≠ .top := by
  rintro rfl
  cases h

namespace Subject

variable {s : Subject} {frames : FrameTable} {f g : Frame} {pc : Nat} {instr : Decoded}

/-- Values are taken off and one of a known type is put on instead. -/
theorem tame_popPush {ts : List SlotType} {t : SlotType} (ht : t ≠ .top)
    (h : (s.file.popAll f ts >>= fun f => f.push t s.code.maxStack) = .ok g) :
    f.Tame s.code.maxStack g := by
  obtain ⟨f', hp, hr⟩ := except_bind_eq_ok.mp h
  exact (Frame.tame_popAll hp).trans (Frame.tame_push hr ht)

theorem tame_popExpectingPush {expected t : SlotType} (ht : t ≠ .top)
    (h : (s.file.popExpecting f expected >>= fun f => f.push t s.code.maxStack) = .ok g) :
    f.Tame s.code.maxStack g := by
  obtain ⟨f', hp, hr⟩ := except_bind_eq_ok.mp h
  exact (Frame.tame_popExpecting hp).trans (Frame.tame_push hr ht)

theorem tame_checkCall {slots : Option UInt8} {owner : String} {t : MethodType}
    (h : s.checkCall f slots owner t = .ok g) : f.Tame s.code.maxStack g := by
  unfold checkCall at h
  split at h
  · cases h
  · obtain ⟨f₁, h₁, hreceiver⟩ := except_bind_eq_ok.mp h
    obtain ⟨f₂, h₂, hresult⟩ := except_bind_eq_ok.mp hreceiver
    have hpopped : f.Tame s.code.maxStack f₂ :=
      (Frame.tame_popAll h₁).trans (Frame.tame_popExpecting h₂)
    split at hresult
    · cases hresult
      exact hpopped
    · exact hpopped.trans (Frame.tame_push hresult (SlotType.ofField_ne_top _))

/-- A copy of the top, or two values the other way round: what is pushed was on the stack. -/
theorem tame_of_pushes {t u : SlotType} {f₁ f₂ : Frame} (ht : t ∈ f.stack) (hu : u ∈ f.stack)
    (hrest : f.Tame s.code.maxStack f₁) (hp : f₁.push t s.code.maxStack = .ok f₂)
    (hq : f₂.push u s.code.maxStack = .ok g) : f.Tame s.code.maxStack g := by
  obtain ⟨hstack₂, _⟩ := Frame.fits_of_push hp
  obtain ⟨hstack, hdepth⟩ := Frame.fits_of_push hq
  refine ⟨fun _ => hdepth, fun htop => ?_⟩
  rw [hstack, hstack₂, List.mem_cons, List.mem_cons] at htop
  rcases htop with rfl | rfl | hmem
  · exact hu
  · exact ht
  · exact hrest.top hmem

/-- **What one checked instruction does to the stack.** -/
theorem tame_checkInstr (h : s.checkInstr frames f pc instr = .ok g) :
    f.Tame s.code.maxStack g := by
  have hint : SlotType.int ≠ .top := by decide
  cases instr with
  | push v => exact Frame.tame_push (codeDefect_eq_ok.mp h) hint
  | iload n =>
    obtain ⟨t, _, hp⟩ := except_bind_eq_ok.mp (codeDefect_eq_ok.mp h)
    split at hp
    · exact Frame.tame_push hp hint
    · cases hp
  | aload n =>
    obtain ⟨t, _, hp⟩ := except_bind_eq_ok.mp (codeDefect_eq_ok.mp h)
    split at hp
    · rename_i href
      exact Frame.tame_push hp (SlotType.ne_top_of_isReference href)
    · cases hp
  | istore n =>
    obtain ⟨f', hp, hs⟩ := except_bind_eq_ok.mp (codeDefect_eq_ok.mp h)
    exact (Frame.tame_popExpecting hp).trans (Frame.tame_setLocal hs)
  | astore n =>
    obtain ⟨⟨t, f'⟩, hp, hs⟩ := except_bind_eq_ok.mp (codeDefect_eq_ok.mp h)
    dsimp only at hs
    split at hs
    · exact (Frame.tame_of_stack (Frame.stack_of_pop hp)).trans (Frame.tame_setLocal hs)
    · cases hs
  | pop =>
    obtain ⟨⟨t, f'⟩, hp, hr⟩ := except_bind_eq_ok.mp (codeDefect_eq_ok.mp h)
    cases hr
    exact Frame.tame_of_stack (Frame.stack_of_popNarrow hp)
  | dup =>
    obtain ⟨⟨t, f₁⟩, hp, hr⟩ := except_bind_eq_ok.mp (codeDefect_eq_ok.mp h)
    obtain ⟨f₂, hp₁, hp₂⟩ := except_bind_eq_ok.mp hr
    have hstack := Frame.stack_of_popNarrow hp
    have ht : t ∈ f.stack := hstack ▸ List.mem_cons_self
    exact tame_of_pushes ht ht (Frame.tame_of_stack hstack) hp₁ hp₂
  | swap =>
    obtain ⟨⟨t, f₁⟩, hp, hr⟩ := except_bind_eq_ok.mp (codeDefect_eq_ok.mp h)
    obtain ⟨⟨u, f₂⟩, hp₁, hr₁⟩ := except_bind_eq_ok.mp hr
    obtain ⟨f₃, hp₂, hp₃⟩ := except_bind_eq_ok.mp hr₁
    have hstack := Frame.stack_of_popNarrow hp
    have hstack₁ : f₁.stack = u :: f₂.stack := Frame.stack_of_popNarrow hp₁
    have ht : t ∈ f.stack := hstack ▸ List.mem_cons_self
    have hu : u ∈ f.stack := by
      rw [hstack, hstack₁]
      exact List.mem_cons_of_mem _ List.mem_cons_self
    exact tame_of_pushes ht hu
      ((Frame.tame_of_stack hstack).trans (Frame.tame_of_stack hstack₁)) hp₂ hp₃
  | iadd => exact tame_popPush hint (codeDefect_eq_ok.mp h)
  | isub => exact tame_popPush hint (codeDefect_eq_ok.mp h)
  | imul => exact tame_popPush hint (codeDefect_eq_ok.mp h)
  | ineg => exact tame_popExpectingPush hint (codeDefect_eq_ok.mp h)
  | i2l => exact tame_popExpectingPush (by decide) (codeDefect_eq_ok.mp h)
  | lcmp => exact tame_popPush hint (codeDefect_eq_ok.mp h)
  | dcmp unordered => exact tame_popPush hint (codeDefect_eq_ok.mp h)
  | ifZero c target =>
    obtain ⟨f', hp, hr⟩ := except_bind_eq_ok.mp (codeDefect_eq_ok.mp h)
    obtain ⟨_, _, hr'⟩ := except_bind_eq_ok.mp hr
    cases hr'
    exact Frame.tame_popExpecting hp
  | ifInts c target =>
    obtain ⟨f', hp, hr⟩ := except_bind_eq_ok.mp (codeDefect_eq_ok.mp h)
    obtain ⟨_, _, hr'⟩ := except_bind_eq_ok.mp hr
    cases hr'
    exact Frame.tame_popAll hp
  | goto target =>
    obtain ⟨_, _, hr⟩ := except_bind_eq_ok.mp (codeDefect_eq_ok.mp h)
    cases hr
    exact .refl
  | ireturn =>
    have hc := codeDefect_eq_ok.mp h
    split at hc
    · exact Frame.tame_popExpecting hc
    · cases hc
  | vreturn =>
    have hc := codeDefect_eq_ok.mp h
    split at hc
    · cases hc
      exact .refl
    · cases hc
  | getfield index =>
    unfold checkInstr at h
    dsimp only at h
    split at h
    · exact tame_popExpectingPush (SlotType.ofField_ne_top _) (codeDefect_eq_ok.mp h)
    · cases h
  | putfield index =>
    unfold checkInstr at h
    dsimp only at h
    split at h
    · exact Frame.tame_popAll (codeDefect_eq_ok.mp h)
    · cases h
  | invokespecial operand =>
    unfold checkInstr at h
    dsimp only at h
    split at h
    · exact tame_checkCall (codeDefect_eq_ok.mp h)
    · cases h
  | invokeinterface operand =>
    unfold checkInstr at h
    dsimp only at h
    split at h
    · exact tame_checkCall (codeDefect_eq_ok.mp h)
    · cases h

end Subject

/-! ## 2. The frames of a walk -/

/-- The stack that an entry of a stack map declares, top first. -/
def FrameDelta.stack : FrameDelta → List SlotType
  | .same _ | .chop _ _ | .append _ _ => []
  | .sameWithOne _ t => [t]
  | .full _ _ stack => stack.reverse

/-- No entry of the stack map puts `top` on the stack. -/
def CodeBody.Plain (code : CodeBody) : Prop := ∀ entry ∈ code.stackMap, .top ∉ entry.stack

instance (code : CodeBody) : Decidable code.Plain :=
  inferInstanceAs (Decidable (∀ entry ∈ code.stackMap, .top ∉ entry.stack))

/-- The stack of the frame is within the room, and has `top` on it only by a stack map. -/
structure Frame.Settled (code : CodeBody) (f : Frame) : Prop where
  depth : f.depth ≤ code.maxStack.toNat
  plain : code.Plain → .top ∉ f.stack

theorem Frame.Settled.tame {code : CodeBody} {f g : Frame} (hf : f.Settled code)
    (h : f.Tame code.maxStack g) : g.Settled code :=
  ⟨h.depth hf.depth, fun hp htop => hf.plain hp (h.top htop)⟩

theorem Frame.stack_of_layOut {code : CodeBody} {types stack : List SlotType} {f : Frame}
    (h : Frame.layOut code types stack = .ok f) :
    f.stack = stack ∧ f.depth ≤ code.maxStack.toNat := by
  unfold Frame.layOut at h
  dsimp only at h
  split at h
  · cases h
  · split at h
    · cases h
    · rename_i hdepth
      cases h
      exact ⟨rfl, Nat.le_of_not_lt hdepth⟩

theorem FrameDelta.stack_of_applyTo {types types' stack : List SlotType} {d : FrameDelta}
    (h : d.applyTo types = .ok (types', stack)) : stack = d.stack := by
  cases d with
  | chop delta n =>
    unfold applyTo at h
    dsimp only at h
    split at h
    · cases h
    · cases h
      rfl
  | _ =>
    cases h
    rfl

theorem FrameTable.eq_or_at?_of_setIfInBounds {table : FrameTable} {offset k : Nat}
    {entered f : Frame} (h : FrameTable.at? (table.setIfInBounds offset (some entered)) k = some f) :
    f = entered ∨ table.at? k = some f := by
  by_cases hsize : offset < table.size
  · rw [Subject.at?_setIfInBounds hsize] at h
    split at h
    · exact .inl (Option.some.inj h).symm
    · exact .inr h
  · rw [Array.setIfInBounds_eq_of_size_le (Nat.le_of_not_lt hsize)] at h
    exact .inr h

/-- **A frame in the table was there before, or has the stack of an entry that was put in.** -/
theorem FrameTable.at?_of_enter {code : CodeBody} {starts : Array (Option Nat)} {k : Nat} {f : Frame} :
    ∀ {entries : List FrameDelta} {types : List SlotType} {previous : Option Nat}
      {table table' : FrameTable},
      FrameTable.enter code starts types previous table entries = .ok table' →
      table'.at? k = some f → table.at? k = some f ∨
        f.depth ≤ code.maxStack.toNat ∧ ∃ entry ∈ entries, f.stack = entry.stack
  | [], _, _, _, _, h, hf => by
    cases h
    exact .inl hf
  | d :: rest, types, previous, table, table', h, hf => by
    unfold FrameTable.enter at h
    dsimp only at h
    split at h
    · cases h
    · rename_i hd
      split at h
      · cases h
      · split at h
        · cases h
        · rename_i entered hlay
          obtain ⟨hstack, hdepth⟩ := Frame.stack_of_layOut hlay
          rcases FrameTable.at?_of_enter h hf with hk | ⟨hroom, entry, hmem, he⟩
          · rcases FrameTable.eq_or_at?_of_setIfInBounds hk with rfl | hold
            · exact .inr ⟨hdepth, d, List.mem_cons_self,
                hstack.trans (FrameDelta.stack_of_applyTo hd)⟩
            · exact .inl hold
          · exact .inr ⟨hroom, entry, List.mem_cons_of_mem _ hmem, he⟩

namespace Subject

variable {s : Subject}

theorem settled_of_declared {listing : Listing} {frames : FrameTable}
    (h : s.file.declaredFrames s.method s.code listing = .ok frames) {offset : Nat} {f : Frame}
    (hf : frames.at? offset = some f) : f.Settled s.code := by
  rcases FrameTable.at?_of_enter h hf with hblank | ⟨hdepth, entry, hmem, hstack⟩
  · rw [at?_replicate] at hblank
    cases hblank
  · exact ⟨hdepth, fun hplain => hstack ▸ hplain entry hmem⟩

theorem settled_frameAt {frames : FrameTable} {current : Option Frame} {pc : Nat} {f : Frame}
    (hframes : ∀ {offset : Nat} {f : Frame}, frames.at? offset = some f → f.Settled s.code)
    (hcurrent : ∀ g, current = some g → g.Settled s.code)
    (h : s.frameAt frames current pc = .ok f) : f.Settled s.code := by
  cases hd : frames.at? pc with
  | some declared => exact frameAt_declared h hd ▸ hframes hd
  | none =>
    unfold frameAt at h
    rw [hd] at h
    cases current with
    | none => cases h
    | some g =>
      cases h
      exact hcurrent f rfl

/-- **Every frame of a walk is settled**, if those that are declared are, and the first one is. -/
theorem Walk.settled {frames : FrameTable} {current : Option Frame} {listing : Listing}
    {along : List Frame} (h : s.Walk frames current listing along)
    (hframes : ∀ {offset : Nat} {f : Frame}, frames.at? offset = some f → f.Settled s.code)
    (hcurrent : ∀ g, current = some g → g.Settled s.code) : ∀ f ∈ along, f.Settled s.code := by
  induction h with
  | done => exact fun f hf => by cases hf
  | @step current pc instr f f' rest along hf hi ht ih =>
    have hsettled : f.Settled s.code := settled_frameAt hframes hcurrent hf
    intro g hg
    rcases List.mem_cons.mp hg with rfl | hg
    · exact hsettled
    · refine ih (fun f₁ hf₁ => ?_) g hg
      split at hf₁
      · cases hf₁
      · cases hf₁
        exact hsettled.tame (tame_checkInstr hi)

theorem Certificate.settled {body : LinkedBody} (cert : s.Certificate body) {f : Frame}
    (hf : f ∈ cert.along) : f.Settled s.code := by
  refine cert.walk.settled (settled_of_declared cert.declared) ?_ f hf
  rintro entry ⟨⟩
  obtain ⟨hstack, hdepth⟩ := Frame.stack_of_layOut cert.layOut_entry
  exact ⟨hdepth, fun _ => hstack ▸ List.not_mem_nil⟩

end Subject

/-! ## 3. The values on the stack -/

variable {ρ : Type}

/-- The slots that values on the stack take. -/
def Machine.occupied : List (Value ρ) → Nat
  | [] => 0
  | v :: rest => v.width + occupied rest

namespace Discipline

variable {file : ClassFile} {D : Discipline ρ file} {v : Value ρ}

/-- A value has the width of its type, unless the type says nothing. -/
theorem width_of_holds {t : SlotType} (h : D.Holds t v) (ht : t ≠ .top) : v.width = t.width := by
  cases t with
  | top => exact absurd rfl ht
  | _ => cases v <;> first | rfl | exact h.elim

theorem length_le_depth (locals : Array SlotType) {ts : List SlotType} {vs : List (Value ρ)}
    (h : List.Forall₂ D.Holds ts vs) : vs.length ≤ Frame.depth ⟨locals, ts⟩ := by
  induction h with
  | nil => exact Nat.zero_le _
  | @cons t v ts vs _ _ ih =>
    have hw : 0 < t.width := by cases t <;> exact Nat.succ_pos _
    rw [Subject.depth_cons, List.length_cons]
    omega

theorem occupied_eq_depth (locals : Array SlotType) {ts : List SlotType} {vs : List (Value ρ)}
    (h : List.Forall₂ D.Holds ts vs) (ht : .top ∉ ts) :
    Machine.occupied vs = Frame.depth ⟨locals, ts⟩ := by
  induction h with
  | nil => rfl
  | @cons t v ts vs hv _ ih =>
    rw [List.mem_cons, not_or] at ht
    rw [Subject.depth_cons, Machine.occupied, width_of_holds hv fun he => ht.1 he.symm, ih ht.2]

end Discipline

/-- The values on the stack are within the room. -/
theorem Subject.Certificate.Fits.within {s : Subject} {body : LinkedBody} {cert : s.Certificate body}
    {D : Discipline ρ s.file} {st : State ρ} (h : cert.Fits D st) :
    st.stack.length ≤ s.code.maxStack.toNat ∧
      (s.code.Plain → Machine.occupied st.stack ≤ s.code.maxStack.toNat) := by
  obtain ⟨f, hf, hd⟩ := h.frame
  have hsettled := cert.settled (List.mem_of_getElem? hf)
  refine ⟨Nat.le_trans (Discipline.length_le_depth f.locals hd.stack) hsettled.depth, fun hplain => ?_⟩
  rw [Discipline.occupied_eq_depth f.locals hd.stack (hsettled.plain hplain)]
  exact hsettled.depth

/-! ## 4. Calls -/

namespace Instance

variable [Record ρ] {file : ClassFile} {c : LinkedClass}

/-- The instances on which code runs: the blank one of a constructor, and those that calls lead
    to. -/
def Live (c : LinkedClass) (i : Instance ρ) : Prop :=
  i = ⟨c, (c.fields.map fun f => Value.zero f.type).toArray⟩ ∨ Reached c (fun _ _ => True) i

theorem Live.kept {i : Instance ρ} (hi : Live c i) (h : file.Accepted c) :
    Kept (Discipline.kindOnly ρ file) c i := by
  rcases hi with rfl | hi
  · exact kept_blank h
  · exact kept_of_reached_any h hi

/-- **The stack of a method of instances**, in every state of every call with arguments that are
    accepted: it never holds more values than the declared room has slots, and these values take no
    more slots than that if no entry of the stack map puts `top` on the stack. -/
theorem stack_within_room {input : List UInt8} (hparse : ClassFile.parse input = .ok file)
    (hload : LinkedClass.load input = .ok c) {name descriptor : String} {d : MethodDecl}
    {code : CodeBody} (hfirst : file.first? name descriptor = some d) (hcode : d.code = some code)
    (hown : d.flags.isStatic = false) :
    ∃ m body, c.findMethod? name descriptor = some m ∧ m.body = some body ∧
      ∀ (i : Instance ρ) (arguments : List (Value ρ)) (steps : Nat), Live c i →
        accepts arguments m.type.parameters = true →
        let stack := (Machine.run body.code steps
          (Machine.entry body m.isStatic i.fields arguments)).2.stack
        stack.length ≤ code.maxStack.toNat ∧
          (code.Plain → Machine.occupied stack ≤ code.maxStack.toNat) := by
  have h := LinkedClass.accepted_of_parse hparse hload
  obtain ⟨m, hm, hlink⟩ := h.linked_of_first? hfirst
  obtain ⟨htype, hstatic, _, _, hcert⟩ := ClassFile.certificate_of_linkMethod hlink
  have hsome : m.body.isSome = true := by
    rw [ClassFile.isSome_body_of_linkMethod hlink, hcode]
    rfl
  obtain ⟨body, hbody⟩ := Option.isSome_iff_exists.mp hsome
  obtain ⟨code', hcode', ⟨cert⟩⟩ := hcert body hbody
  obtain rfl : code' = code := Option.some.inj (hcode'.symm.trans hcode)
  refine ⟨m, body, hm, hbody, fun i arguments steps hi haccepts => ?_⟩
  rw [htype] at haccepts
  have hfields : (Discipline.kindOnly ρ file).FieldsFit
      (if d.flags.isStatic then #[] else i.fields) := by
    rw [hown]
    exact fun _ _ => (hi.kept h).fields
  -- references are not told apart here: only the kinds of values decide about widths
  have hentry := cert.fits_entry (kindOnly_of_accepts haccepts) (fun _ => trivial) hfields
  rw [hstatic]
  exact (Subject.Certificate.run_sound h.types steps hentry).2.within

/-! ### Two methods with a long integer on the stack

Both put a long integer on the stack and an integer on top of it.  In between, the stack map of the
first calls the long integer `top`, that of the second calls it what it is. -/

/-- The bytes of the class. -/
def spillerBytes : List UInt8 := [
  -- magic number, version, size of the pool
  202, 254, 186, 190, 0, 0, 0, 52, 0, 13,
  -- the pool
  1, 0, 1, 87, 7, 0, 1, 1, 0, 16, 106, 97, 118, 97, 47, 108, 97, 110, 103, 47, 79, 98, 106, 101, 99,
  116, 7, 0, 3, 1, 0, 6, 60, 105, 110, 105, 116, 62, 1, 0, 3, 40, 41, 86, 12, 0, 5, 0, 6, 10, 0, 4,
  0, 7, 1, 0, 4, 67, 111, 100, 101, 1, 0, 5, 115, 112, 105, 108, 108, 1, 0, 13, 83, 116, 97, 99, 107,
  77, 97, 112, 84, 97, 98, 108, 101, 1, 0, 4, 104, 111, 108, 100,
  -- flags, names, no interfaces, no fields, three methods
  0, 33, 0, 2, 0, 4, 0, 0, 0, 0, 0, 3,
  -- the constructor
  0, 1, 0, 5, 0, 6, 0, 1, 0, 9, 0, 0, 0, 17, 0, 1, 0, 1, 0, 0, 0, 5, 42, 183, 0, 8, 177, 0, 0, 0, 0,
  -- the method with `top` in its stack map
  0, 1, 0, 10, 0, 6, 0, 1, 0, 9, 0, 0, 0, 28, 0, 2, 0, 1, 0, 0, 0, 6, 3, 133, 3, 87, 87, 177, 0, 0,
  0, 1, 0, 11, 0, 0, 0, 4, 0, 1, 66, 0,
  -- the method with the long integer in its stack map
  0, 1, 0, 12, 0, 6, 0, 1, 0, 9, 0, 0, 0, 27, 0, 3, 0, 1, 0, 0, 0, 5, 3, 133, 3, 87, 177, 0, 0, 0, 1,
  0, 11, 0, 0, 0, 4, 0, 1, 66, 4,
  0, 0]

def holdCode : CodeBody := ⟨3, 1, [3, 133, 3, 87, 177], 209, [.sameWithOne 2 .long]⟩

def holdDecl : MethodDecl := ⟨⟨1⟩, "hold", ⟨[], none⟩, initDescriptor, some holdCode⟩

/-- What the bytes are read as. -/
def spillerFile : ClassFile where
  version := ⟨0, 52⟩
  pool := ⟨#[.text "W", .cls 1, .text objectClass, .cls 3, .text initName, .text initDescriptor,
    .nameAndType 5 6, .member .method 4 7, .text codeAttributeName, .text "spill",
    .text stackMapAttributeName, .text "hold"]⟩
  flags := ⟨33⟩
  thisClass := "W"
  superClass := objectClass
  interfaces := []
  fields := []
  methods := [
    ⟨⟨1⟩, initName, ⟨[], none⟩, initDescriptor, some ⟨1, 1, [42, 183, 0, 8, 177], 136, []⟩⟩,
    ⟨⟨1⟩, "spill", ⟨[], none⟩, initDescriptor,
      some ⟨2, 1, [3, 133, 3, 87, 87, 177], 167, [.sameWithOne 2 .top]⟩⟩,
    holdDecl]

def spillBody : LinkedBody :=
  ⟨2, 1, #[(0, .push 0), (1, .i2l), (2, .push 0), (3, .pop), (4, .pop), (5, .vreturn)]⟩

def holdBody : LinkedBody := ⟨3, 1, #[(0, .push 0), (1, .i2l), (2, .push 0), (3, .pop), (4, .vreturn)]⟩

/-- The class that is made from them. -/
def spiller : LinkedClass :=
  ⟨"W", objectClass, [], ⟨0, 52⟩, [],
    [⟨initName, initDescriptor, ⟨[], none⟩, false,
      some ⟨1, 1, #[(0, .aload 0), (1, .invokespecial .objectInit), (4, .vreturn)]⟩⟩,
      ⟨"spill", initDescriptor, ⟨[], none⟩, false, some spillBody⟩,
      ⟨"hold", initDescriptor, ⟨[], none⟩, false, some holdBody⟩]⟩

theorem parse_spiller : ClassFile.parse spillerBytes = .ok spillerFile := by decide +kernel

theorem load_spiller : LinkedClass.load spillerBytes = .ok spiller := by decide +kernel

/-- **A stack beyond its room**: the class is loaded, and after three steps of the first method the
    stack takes three slots, where two were declared. -/
theorem stack_beyond_room :
    LinkedClass.load spillerBytes = .ok spiller ∧
    Reached spiller (fun _ _ => True) (⟨spiller, #[]⟩ : Instance Row) ∧
    spiller.findMethod? "spill" initDescriptor =
      some ⟨"spill", initDescriptor, ⟨[], none⟩, false, some spillBody⟩ ∧
    spillBody.maxStack = 2 ∧
    Machine.occupied (Machine.run spillBody.code 3
      (Machine.entry spillBody false (#[] : Array (Value Row)) [])).2.stack = 3 := by
  refine ⟨load_spiller, .new ?_, ?_, rfl, ?_⟩ <;> decide

/-- In the second method the long integer keeps its two slots, and the room is used up. -/
theorem stack_within_room_spiller :
    spillerFile.first? "hold" initDescriptor = some holdDecl ∧ holdCode.Plain ∧
    (∀ steps, Machine.occupied (Machine.run holdBody.code steps
      (Machine.entry holdBody false (#[] : Array (Value Row)) [])).2.stack ≤ 3) ∧
    Machine.occupied (Machine.run holdBody.code 3
      (Machine.entry holdBody false (#[] : Array (Value Row)) [])).2.stack = 3 := by
  have hfirst : spillerFile.first? "hold" initDescriptor = some holdDecl := by decide
  have hplain : holdCode.Plain := by decide
  obtain ⟨m, body, hm, hb, hall⟩ :=
    stack_within_room (ρ := Row) parse_spiller load_spiller hfirst rfl rfl
  have hfound : spiller.findMethod? "hold" initDescriptor =
      some ⟨"hold", initDescriptor, ⟨[], none⟩, false, some holdBody⟩ := by decide
  obtain rfl := Option.some.inj (hm.symm.trans hfound)
  obtain rfl : holdBody = body := Option.some.inj hb
  have hlive : Live spiller (⟨spiller, #[]⟩ : Instance Row) := .inl rfl
  refine ⟨hfirst, hplain, fun steps => (hall _ [] steps hlive rfl).2 hplain, ?_⟩
  decide

end Instance

end Collation
