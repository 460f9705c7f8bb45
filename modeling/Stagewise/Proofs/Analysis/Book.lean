import Stagewise.Proofs.Analysis.Acts

/-!
# The books of an analysis

An analysis keeps several lists about declarations, which are under analysis,
which were defined or refused, whose type is being computed, and the types that
were published. They are kept apart, and it is the acts that keep them in
agreement: every name is in one phase, and what the lists have about it is what
belongs to the phase. `Book.act` says that every act leaves the books in order,
and so they are in order all along a course.

An act changes the phase of one declaration at most. That the others stay where
they are is stated for each act by itself, since what goes on in the middle of
an analysis of one declaration has to be told apart from what happens to it.
-/

namespace Stagewise

/-- Whether a name is that of a built-in can be told from the entry. -/
theorem Declarations.isBuiltin_name {ds : Declarations} {d : Declaration} (hd : d ∈ ds.entries) :
    ds.isBuiltin d.name = d.isBuiltin := by
  rw [isBuiltin, find?_eq_some_iff.mpr ⟨hd, rfl⟩, Option.any_some]

namespace Analysis

variable {β : Type} {ctx : Context β} {s t : State β} {x y : String} {p : Phase}

/-!
## Lists with a first element

The declarations under analysis are on a stack, as a list without duplicates.
Most that is said below is about what is on top and about what is under it.
-/

theorem eq_cons_of_head? {l : List String} (h : l.head? = some y) : l = y :: l.tail := by
  cases l with
  | nil => cases h
  | cons a l => rw [← Option.some.inj h, List.tail_cons]

theorem mem_tail_of_ne {l : List String} (h : l.head? = some y) (hne : x ≠ y) :
    x ∈ l.tail ↔ x ∈ l := by
  rw [eq_cons_of_head? h, List.tail_cons, List.mem_cons, or_iff_right hne]

/-- What is on top of the stack is not on it twice. -/
theorem not_mem_tail {l : List String} (hl : l.Nodup) (h : l.head? = some y) : y ∉ l.tail := by
  rw [eq_cons_of_head? h] at hl
  exact (List.nodup_cons.mp hl).1

theorem lookup_append_of_ne {α : Type} {l : List (String × α)} {a : Option α} (hne : x ≠ y) :
    ((a.map (y, ·)).toList ++ l).lookup x = l.lookup x := by
  cases a with
  | none => rfl
  | some a =>
    show ((y, a) :: l).lookup x = l.lookup x
    rw [List.lookup_cons, beq_false_of_ne hne]

/-!
## Names that nothing happens to

A phase is read off the lists of the state, so an act may only change a name's
phase by changing one of the lists. For each act it is said here that it leaves
the names alone that it is not about. Six of the acts are about none, and all
they change is not looked at by a phase.
-/

/-- What the state has about a name is the same. -/
theorem Standing.of_same (h : Standing ctx s x p) (hactive : x ∈ t.active ↔ x ∈ s.active)
    (hdefined : x ∈ t.defined ↔ x ∈ s.defined) (hfailed : x ∈ t.failed ↔ x ∈ s.failed)
    (hprogress : x ∈ t.inProgress ↔ x ∈ s.inProgress)
    (htypes : t.types.lookup x = s.types.lookup x)
    (hhistory : Analysis.history t.transcript x = Analysis.history s.transcript x) :
    Standing ctx t x p where
  declared := h.declared
  active := hactive.trans h.active
  defined := hdefined.trans h.defined
  failed := hfailed.trans h.failed
  inProgress := hprogress.trans h.inProgress
  published := htypes ▸ h.published
  history := hhistory.trans h.history

theorem Standing.move (h : Standing ctx s x p) (scopes : Scopes) (inAscription : Bool) :
    Standing ctx { s with scopes, inAscription } x p :=
  h.of_same .rfl .rfl .rfl .rfl rfl rfl

/-- To look up a name is noted, and says nothing of how far the declaration
is. -/
theorem Standing.resolve (h : Standing ctx s x p) (name : String) (binding : Binding) :
    Standing ctx (s.resolve name binding) x p :=
  h.of_same .rfl .rfl .rfl .rfl rfl rfl

theorem Standing.fold (h : Standing ctx s x p) {foldings : List (Term × Value)} :
    Standing ctx { s with moments := s.now :: s.moments, foldings } x p :=
  h.of_same .rfl .rfl .rfl .rfl rfl rfl

theorem Standing.reuse (h : Standing ctx s x p) {expansions : List (String × Data)} :
    Standing ctx { s with expansions } x p :=
  h.of_same .rfl .rfl .rfl .rfl rfl rfl

/-- A request about no declaration changes nothing for any. -/
theorem Standing.evaluate (h : Standing ctx s x p) {subject : Subject} {text : String}
    (due : Due ctx s .evaluate subject text) (cache : Cache) (expansions : List (String × Data)) :
    Standing ctx { s.told ctx .evaluate subject text with cache, expansions } x p := by
  have hnone : subject.declaration? = none := by cases due <;> rfl
  refine h.of_same .rfl .rfl .rfl .rfl rfl (history_append_of_ne ?_)
  simp [hnone]

/-- That a declaration is called for does not change its phase yet. -/
theorem Standing.summons (h : Standing ctx s x p) (hs : Summons s y t) : Standing ctx t x p := by
  cases hs with
  | unbidden => exact h
  | lookup => exact h.resolve _ _

/-- When a declaration is entered, the others are where they were. -/
theorem Standing.enter_of_ne (h : Standing ctx s x p) (hne : x ≠ y) (marked : Bool) :
    Standing ctx { s with
      active := y :: s.active
      inProgress := if marked then s.inProgress else y :: s.inProgress } x p := by
  refine h.of_same ?_ .rfl .rfl ?_ rfl rfl
  · exact List.mem_cons.trans (or_iff_right hne)
  · cases marked with
    | true => exact .rfl
    | false => exact List.mem_cons.trans (or_iff_right hne)

theorem Standing.declare_of_ne (h : Standing ctx s x p) (hne : x ≠ y) {subject : Subject}
    {text : String} (about : subject.declaration? = some y) (ty : Option Ty) (unmarked : Bool)
    (moments : List Moment) :
    Standing ctx { s.told ctx .declare subject text with
      types := (ty.map (y, ·)).toList ++ s.types
      inProgress := if unmarked then s.inProgress.erase y else s.inProgress
      moments } x p := by
  refine h.of_same .rfl .rfl .rfl ?_ (lookup_append_of_ne hne) (history_append_of_ne ?_)
  · cases unmarked with
    | true => exact List.mem_erase_of_ne hne
    | false => exact .rfl
  · simpa [about] using hne.symm

/-- When one is defined and left, the others are where they were. The one that
is left was on top of the stack, so the names under it are still on it. -/
theorem Standing.define_of_ne (h : Standing ctx s x p) (hne : x ≠ y)
    (top : s.active.head? = some y) {subject : Subject} {text : String}
    (about : subject.declaration? = some y) (ty : Option Ty) (values : Values) :
    Standing ctx { (s.told ctx .define subject text).leave y with
      defined := s.defined ++ [y]
      types := (ty.map (y, ·)).toList ++ s.types
      values } x p := by
  refine h.of_same (mem_tail_of_ne top hne) ?_ .rfl (List.mem_erase_of_ne hne)
    (lookup_append_of_ne hne) (history_append_of_ne ?_)
  · exact List.mem_append.trans (or_iff_left (fun hx => hne (List.mem_singleton.mp hx)))
  · simpa [about] using hne.symm

/-- The same when one is refused. -/
theorem Standing.refuse_of_ne (h : Standing ctx s x p) (hne : x ≠ y)
    (top : s.active.head? = some y) (refusal : Refusal s t) :
    Standing ctx { t.leave y with failed := t.failed ++ [y] } x p := by
  cases refusal
  all_goals
    refine h.of_same (mem_tail_of_ne top hne) .rfl ?_ (List.mem_erase_of_ne hne) rfl rfl
    exact List.mem_append.trans (or_iff_left (fun hx => hne (List.mem_singleton.mp hx)))

/-!
## The declaration that an act is about

The other four acts take a declaration from one phase to another. What they
assume of its phase is what they need to know of the lists, and what they change
in the lists is what tells the next phase from it.
-/

section

variable {d : Declaration} (entry : d ∈ ctx.declarations.entries)

include entry

/-- **A declaration is entered**: it goes on the stack, and is marked unless it
is a built-in. -/
theorem Standing.enter (h : Standing ctx s d.name .untouched) :
    Standing ctx { s with
        active := d.name :: s.active
        inProgress := if d.isBuiltin then s.inProgress else d.name :: s.inProgress }
      d.name .begun where
  declared _ := List.mem_map.mpr ⟨d, entry, rfl⟩
  active := iff_of_true List.mem_cons_self rfl
  defined := h.defined.trans (by simp)
  failed := h.failed
  inProgress := by
    have hnot : d.name ∉ s.inProgress := by simp [h.inProgress, Phase.isOpen]
    rw [Declarations.isBuiltin_name entry]
    cases d.isBuiltin <;> simp [Phase.isOpen, hnot]
  published := h.published
  history := h.history

/-- **A declaration is declared.** If it is a function then its type is
published and its mark is cleared. That there is one mark of it at most matters
here, as one is what is taken away. -/
theorem Standing.declare (h : Standing ctx s d.name .begun) (hnodup : s.inProgress.Nodup)
    {subject : Subject} {text : String} (about : subject.declaration? = some d.name)
    {ty : Option Ty} (publishes : ty.isSome = d.isFunction) (moments : List Moment) :
    Standing ctx { s.told ctx .declare subject text with
      types := (ty.map (d.name, ·)).toList ++ s.types
      inProgress := if d.isFunction then s.inProgress.erase d.name else s.inProgress
      moments } d.name .announced where
  declared _ := List.mem_map.mpr ⟨d, entry, rfl⟩
  active := h.active
  defined := h.defined.trans (by simp)
  failed := h.failed
  inProgress := by
    have hprogress := h.inProgress
    rw [Declarations.isFunction_name entry] at hprogress ⊢
    cases hf : d.isFunction with
    | true => simp [Phase.isOpen, hnodup.mem_erase_iff]
    | false => simpa [Phase.isOpen] using hprogress
  published := by
    have hnone := h.published
    rw [Declarations.isFunction_name entry] at hnone ⊢
    cases ty with
    | some ty => simpa [Phase.isPublished] using publishes
    | none => simpa [Phase.isPublished, ← publishes] using hnone
  history := by
    show Analysis.history (s.transcript ++ [_]) d.name = _
    rw [history_append_of_eq about, h.history]
    rfl

/-- **A declaration is defined**, and left. Its type is published now, if it was
not when it was declared. -/
theorem Standing.define (h : Standing ctx s d.name .announced) (hs : s.active.Nodup)
    (hnodup : s.inProgress.Nodup) (top : s.active.head? = some d.name) {subject : Subject}
    {text : String} (about : subject.declaration? = some d.name) {ty : Option Ty} {v : Option Value}
    (learns : Learns s d ty v) (values : Values) :
    Standing ctx { (s.told ctx .define subject text).leave d.name with
      defined := s.defined ++ [d.name]
      types := (ty.map (d.name, ·)).toList ++ s.types
      values } d.name .settled where
  declared _ := List.mem_map.mpr ⟨d, entry, rfl⟩
  active := iff_of_false (not_mem_tail hs top) (by simp [Phase.isActive])
  defined := iff_of_true (List.mem_append_right _ List.mem_cons_self) rfl
  failed := h.failed
  inProgress := by
    refine iff_of_false ?_ (by simp [Phase.isOpen])
    show d.name ∉ s.inProgress.erase d.name
    simp [hnodup.mem_erase_iff]
  published := by
    have hpublished := h.published
    rw [Declarations.isFunction_name entry] at hpublished
    cases learns with
    | function f => exact hpublished
    | builtin b => simp [Phase.isPublished]
    | folded c _ _ => simp [Phase.isPublished]
    | computed c ty => simp [Phase.isPublished]
  history := by
    show Analysis.history (s.transcript ++ [_]) d.name = _
    rw [history_append_of_eq about, h.history]
    rfl

end

/-- The phase that a declaration under analysis goes to when it is refused. -/
def Phase.refused : Phase → Phase
  | .begun => .dropped
  | _ => .abandoned

/-- **A declaration is refused**, and left. What was said about it remains said,
so it matters whether it had been declared. -/
theorem Standing.refuse (h : Standing ctx s x p) (hs : s.active.Nodup) (hnodup : s.inProgress.Nodup)
    (top : s.active.head? = some x) (refusal : Refusal s t) :
    Standing ctx { t.leave x with failed := t.failed ++ [x] } x p.refused := by
  have hactive : p = .begun ∨ p = .announced := by
    have hp := h.active.mp (List.mem_of_mem_head? top)
    cases p <;> simp_all [Phase.isActive]
  have hname : x ∈ ctx.declarations.names := by
    obtain rfl | rfl := hactive <;> exact h.declared (by simp)
  have hdefined : x ∉ s.defined := by
    obtain rfl | rfl := hactive <;> simp [h.defined]
  have herase : x ∉ s.inProgress.erase x := by simp [hnodup.mem_erase_iff]
  have hpublished := h.published
  have hhistory := h.history
  cases refusal
  all_goals
    exact
      { declared := fun _ => hname
        active := iff_of_false (not_mem_tail hs top)
          (by cases p <;> simp [Phase.refused, Phase.isActive])
        defined := iff_of_false hdefined (by cases p <;> simp [Phase.refused])
        failed := iff_of_true (List.mem_append_right _ List.mem_cons_self) (by cases p <;> rfl)
        inProgress := iff_of_false herase (by cases p <;> simp [Phase.refused, Phase.isOpen])
        published := by obtain rfl | rfl := hactive <;> exact hpublished
        history := by obtain rfl | rfl := hactive <;> exact hhistory }

/-! ## What only grows -/

/-- A type that was published is not covered by one of a name that had none. -/
theorem lookup_append_of_lookup {types : List (String × Ty)} {new : Option Ty} {ty : Ty}
    (hy : new.isSome = true → (types.lookup y).isSome = false) (hx : types.lookup x = some ty) :
    ((new.map (y, ·)).toList ++ types).lookup x = some ty := by
  cases new with
  | none => exact hx
  | some new =>
    have hne : x ≠ y := by
      rintro rfl
      simp [hx] at hy
    rw [lookup_append_of_ne hne, hx]

/-- **An act takes nothing back.** -/
theorem Act.grows (h : Act ctx s t) : Grows s t := by
  have hs := Grows.refl s
  cases h with
  | move scopes inAscription faithful => exact { hs with }
  | resolve known => exact { hs with resolutions := List.prefix_append .. }
  | fold => exact { hs with }
  | evaluate due accepted => exact { hs with transcript := List.prefix_append .. }
  | expand due accepted answer => exact { hs with transcript := List.prefix_append .. }
  | reuse => exact { hs with }
  | enter summons entry phase =>
    cases summons with
    | unbidden idle => exact { hs with }
    | lookup => exact { hs with resolutions := List.prefix_append .. }
  | @declare d subject text ty entry about due publishes accepted =>
    obtain ⟨top, about', phase, -, -⟩ := due
    obtain rfl := Option.some.inj (about.symm.trans about')
    refine { hs with transcript := List.prefix_append .., types := fun x ty hx => ?_ }
    exact lookup_append_of_lookup (fun _ => phase.published) hx
  | @define d subject text ty v entry about due learns accepted =>
    obtain - | ⟨top, about', phase, -, -⟩ := due
    obtain rfl := Option.some.inj (about.symm.trans about')
    refine { hs with transcript := List.prefix_append .., defined := List.prefix_append ..,
                     types := fun x ty hx => ?_ }
    refine lookup_append_of_lookup (fun hty => ?_) hx
    rw [phase.published, Declarations.isFunction_name entry]
    cases learns with
    | function f => cases hty
    | _ => rfl
  | refuse top refusal =>
    cases refusal with
    | reported d =>
      exact { hs with
        diagnostics := (List.prefix_append ..).map _, failed := List.prefix_append .. }
    | inherited known failed unpublished => exact { hs with failed := List.prefix_append .. }

/-- Nothing is taken back in a whole course. The induction is on the acts of
it. -/
theorem Course.grows (h : Course ctx s t) : Grows s t := by
  induction h with
  | refl => exact .refl s
  | tail _ hact ih => exact ih.trans hact.grows

/-!
## The books

The invariant has more than the phases in it. The scopes are those of the
module, and none of the lists has a duplicate. Without this the phases alone
would not be kept: a name that is taken off a list once could still be on it.
-/

/-- **The books are in order.** -/
structure Book (ctx : Context β) (s : State β) : Prop where
  scopes : s.scopes.Faithful ctx.declarations.names
  active : s.active.Nodup
  defined : s.defined.Nodup
  failed : s.failed.Nodup
  inProgress : s.inProgress.Nodup
  standing : ∀ x, ∃ p, Standing ctx s x p

namespace Book

/-- What is known of the phase of one name is known of all others. -/
theorem standing_of_ne (h : Book ctx s) (hy : ∃ p, Standing ctx t y p)
    (hother : ∀ x p, x ≠ y → Standing ctx s x p → Standing ctx t x p) (x : String) :
    ∃ p, Standing ctx t x p := by
  by_cases hx : x = y
  · exact hx ▸ hy
  · obtain ⟨p, hp⟩ := h.standing x
    exact ⟨p, hother x p hx hp⟩

/-- Calling for a declaration leaves the books as they are. -/
theorem summons (h : Book ctx s) (hs : Summons s y t) : Book ctx t := by
  have hstanding : ∀ x, ∃ p, Standing ctx t x p := fun x => by
    obtain ⟨p, hp⟩ := h.standing x
    exact ⟨p, hp.summons hs⟩
  cases hs with
  | unbidden => exact h
  | lookup => exact { h with standing := hstanding }

/-- **Every act leaves the books in order.**

There is a case for each act. The six that are about no declaration keep all
phases, by the lemmas above, and of the others one name changes its phase and
the rest do not (`standing_of_ne`). That the stack and the marks have no
duplicates is needed and kept along with this: a declaration is entered when it
is untouched, and so is on neither. -/
theorem act (h : Book ctx s) (hact : Act ctx s t) : Book ctx t := by
  -- most acts leave every declaration in the phase it was in
  cases hact with
  | move scopes inAscription faithful =>
    refine { h with scopes := faithful, standing := fun x => ?_ }
    obtain ⟨p, hp⟩ := h.standing x
    exact ⟨p, hp.move scopes inAscription⟩
  | resolve known =>
    refine { h with standing := fun x => ?_ }
    obtain ⟨p, hp⟩ := h.standing x
    exact ⟨p, hp.resolve _ _⟩
  | fold =>
    refine { h with standing := fun x => ?_ }
    obtain ⟨p, hp⟩ := h.standing x
    exact ⟨p, hp.fold⟩
  | evaluate due accepted =>
    refine { h with standing := fun x => ?_ }
    obtain ⟨p, hp⟩ := h.standing x
    exact ⟨p, hp.evaluate due s.cache s.expansions⟩
  | expand due accepted answer =>
    refine { h with standing := fun x => ?_ }
    obtain ⟨p, hp⟩ := h.standing x
    exact ⟨p, hp.evaluate due _ _⟩
  | reuse =>
    refine { h with standing := fun x => ?_ }
    obtain ⟨p, hp⟩ := h.standing x
    exact ⟨p, hp.reuse⟩
  | @enter u d summons entry phase =>
    have hu := h.summons summons
    have phase := phase.summons summons
    -- only the declaration that is entered changes its phase, and it was untouched
    have hactive : d.name ∉ u.active := by simp [phase.active, Phase.isActive]
    have hprogress : d.name ∉ u.inProgress := by simp [phase.inProgress, Phase.isOpen]
    refine { hu with active := List.nodup_cons.mpr ⟨hactive, hu.active⟩, inProgress := ?_,
                     standing := ?_ }
    · show (if d.isBuiltin then u.inProgress else d.name :: u.inProgress).Nodup
      split
      · exact hu.inProgress
      · exact List.nodup_cons.mpr ⟨hprogress, hu.inProgress⟩
    · exact hu.standing_of_ne ⟨_, phase.enter entry⟩ (fun x p hne hp => hp.enter_of_ne hne _)
  | @declare d subject text ty entry about due publishes accepted =>
    obtain ⟨top, about', phase, -, -⟩ := due
    obtain rfl := Option.some.inj (about.symm.trans about')
    refine { h with inProgress := ?_, standing := ?_ }
    · show (if d.isFunction then s.inProgress.erase d.name else s.inProgress).Nodup
      split
      · exact h.inProgress.erase _
      · exact h.inProgress
    · exact h.standing_of_ne ⟨_, phase.declare entry h.inProgress about publishes _⟩
        (fun x p hne hp => hp.declare_of_ne hne about ty _ _)
  | @define d subject text ty v entry about due learns accepted =>
    obtain - | ⟨top, about', phase, -, -⟩ := due
    obtain rfl := Option.some.inj (about.symm.trans about')
    have hnew : d.name ∉ s.defined := by simp [phase.defined]
    refine { h with active := h.active.tail, inProgress := h.inProgress.erase _, defined := ?_,
                    standing := ?_ }
    · exact h.defined.append (List.nodup_singleton _) (List.disjoint_singleton.mpr hnew)
    · exact h.standing_of_ne
        ⟨_, phase.define entry h.active h.inProgress top about learns _⟩
        (fun x p hne hp => hp.define_of_ne hne top about ty _)
  | @refuse u x top refusal =>
    obtain ⟨p, hp⟩ := h.standing x
    have hnew : x ∉ s.failed := by
      have hactive := hp.active.mp (List.mem_of_mem_head? top)
      rw [hp.failed]
      cases p <;> simp_all [Phase.isActive, Phase.isFailed]
    have hstanding := h.standing_of_ne ⟨_, hp.refuse h.active h.inProgress top refusal⟩
      (fun y q hne hq => hq.refuse_of_ne hne top refusal)
    have hfailed : (s.failed ++ [x]).Nodup :=
      h.failed.append (List.nodup_singleton _) (List.disjoint_singleton.mpr hnew)
    cases refusal
    all_goals
      exact { h with active := h.active.tail, inProgress := h.inProgress.erase _,
                     failed := hfailed, standing := hstanding }

/-- **The books are in order all along a course.** -/
theorem course (h : Book ctx s) (hc : Course ctx s t) : Book ctx t := by
  induction hc with
  | refl => exact h
  | tail _ hact ih => exact ih.act hact

/-- **Nothing is both defined and refused**, as these are the ends of different
phases. -/
theorem disjoint_defined_failed (h : Book ctx s) : s.defined.Disjoint s.failed := by
  intro x hdefined hfailed
  obtain ⟨p, hp⟩ := h.standing x
  rw [hp.failed, hp.defined.mp hdefined] at hfailed
  cases hfailed

/-- **What has a type and is not defined** is a function that was declared. It
was refused since, or it is under analysis. -/
theorem function_of_not_mem_defined (h : Book ctx s) (hx : (s.types.lookup x).isSome = true)
    (hundefined : x ∉ s.defined) :
    ctx.declarations.isFunction x = true ∧ history s.transcript x = [.declare] ∧
      (x ∈ s.failed ∨ x ∈ s.active) := by
  obtain ⟨p, hp⟩ := h.standing x
  have hpublished := hp.published.symm.trans hx
  cases p with
  | untouched | begun | dropped => cases hpublished
  | announced => exact ⟨hpublished, hp.history, .inr (hp.active.mpr rfl)⟩
  | settled => exact absurd (hp.defined.mpr rfl) hundefined
  | abandoned => exact ⟨hpublished, hp.history, .inl (hp.failed.mpr rfl)⟩

end Book

end Analysis

end Stagewise
