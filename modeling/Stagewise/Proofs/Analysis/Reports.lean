import Mathlib.Data.List.Perm.Subperm
import Stagewise.Proofs.Analysis.Book

/-!
# Who reports what

When a declaration is refused, something has been reported, or it referred to
another declaration that was refused before it and that has no type. Nobody
keeps account of which of the two it was. The analysis goes on with other
declarations, and looks at what was reported in the end only.

`Accounted` says that the account could be made up at any time. Every report was
made inside a declaration that is refused now, no two of them inside the same
one, and a declaration that has reported nothing refers to one that it has its
failure from. Every act keeps it so, because a declaration is refused by the
very act that reports something about it.
-/

namespace Stagewise.Analysis

variable {β : Type} {ctx : Context β} {s t : State β} {x y : String}

/-- **A declaration has reported something** about itself. -/
def Reports (s : State β) (x : String) : Prop := ∃ r ∈ s.reports, r.inside = some x

/-- **A declaration has its failure from another**: it looked up the name of one
that was refused before it had a type. -/
def Inherits (s : State β) (x : String) : Prop :=
  ∃ y ∈ s.failed, y ≠ x ∧ s.types.lookup y = none ∧ ⟨some x, y, .global y⟩ ∈ s.resolutions

/-- **What was refused is accounted for.** -/
structure Accounted (s : State β) : Prop where
  /-- Declarations are looked up by their names. -/
  named : ∀ r ∈ s.resolutions, ∀ x, r.binding = .global x → x = r.name
  /-- Reports are made inside declarations that are refused. -/
  inside : ∀ r ∈ s.reports, ∃ x ∈ s.failed, r.inside = some x
  /-- No declaration reports twice. -/
  once : (s.reports.map (·.inside)).Nodup
  /-- One that reports nothing has its failure from another. -/
  inherited : ∀ x ∈ s.failed, ¬Reports s x → Inherits s x

/-! ## What was refused stays as it is -/

/-- A declaration that was refused without a type gets none any more: types are
published by declarations under analysis. -/
theorem Act.lookup_eq_none (h : Act ctx s t) (hy : y ∈ s.failed) (hnone : s.types.lookup y = none) :
    t.types.lookup y = none := by
  cases h with
  | move | resolve | fold | evaluate | expand | reuse => exact hnone
  | enter summons entry phase => cases summons <;> exact hnone
  | @declare d subject text ty entry about due publishes accepted =>
    obtain ⟨top, about', phase, -, -⟩ := due
    obtain rfl := Option.some.inj (about.symm.trans about')
    have hne : y ≠ d.name := by
      rintro rfl
      simp [phase.failed, Phase.isFailed] at hy
    exact (lookup_append_of_ne hne).trans hnone
  | @define d subject text ty v entry about due learns accepted =>
    obtain - | ⟨top, about', phase, -, -⟩ := due
    obtain rfl := Option.some.inj (about.symm.trans about')
    have hne : y ≠ d.name := by
      rintro rfl
      simp [phase.failed, Phase.isFailed] at hy
    exact (lookup_append_of_ne hne).trans hnone
  | refuse top refusal => cases refusal <;> exact hnone

/-- A failure that was inherited stays inherited. The other declaration stays
refused and without a type. -/
theorem Inherits.act (h : Inherits s x) (hact : Act ctx s t) : Inherits t x := by
  obtain ⟨y, hy, hne, hnone, hmem⟩ := h
  have hgrows := hact.grows
  exact ⟨y, hgrows.failed.subset hy, hne, hact.lookup_eq_none hy hnone,
    hgrows.resolutions.subset hmem⟩

/-- What is under analysis has not been refused. -/
theorem Book.not_mem_failed (h : Book ctx s) (hx : x ∈ s.active) : x ∉ s.failed := by
  obtain ⟨p, hp⟩ := h.standing x
  have hactive := hp.active.mp hx
  rw [hp.failed]
  cases p <;> simp_all [Phase.isActive, Phase.isFailed]

namespace Accounted

/-- A reference is a lookup of a name, and the name is that of the
declaration. -/
theorem mem_resolutions (h : Accounted s) (hrefers : Refers s.resolutions x y) :
    ⟨some x, y, .global y⟩ ∈ s.resolutions := by
  obtain ⟨r, hr, hsome⟩ := List.mem_filterMap.mp hrefers
  obtain ⟨inside, name, binding⟩ := r
  cases inside with
  | none => cases hsome
  | some d =>
    cases binding with
    | lexical l => cases hsome
    | global z =>
      cases hsome
      obtain rfl := h.named _ hr z rfl
      exact hr

/-- An act after which the same are refused, and the same reported. -/
theorem of_same (h : Accounted s) (hact : Act ctx s t) (hreports : t.reports = s.reports)
    (hfailed : t.failed = s.failed)
    (hnamed : ∀ r ∈ t.resolutions, ∀ x, r.binding = .global x → x = r.name) : Accounted t where
  named := hnamed
  inside := by
    rw [hreports, hfailed]
    exact h.inside
  once := hreports ▸ h.once
  inherited x hx hnot := by
    rw [hfailed] at hx
    rw [Reports, hreports] at hnot
    exact (h.inherited x hx hnot).act hact

/-- One more lookup, under the right name. -/
theorem named_append (h : Accounted s) {r : Resolution}
    (hr : ∀ x, r.binding = .global x → x = r.name) :
    ∀ r' ∈ s.resolutions ++ [r], ∀ x, r'.binding = .global x → x = r'.name :=
  List.forall_mem_append.mpr ⟨h.named, List.forall_mem_singleton.mpr hr⟩

/-- **Every act keeps the account.**

Reports come with an act of their own, which refuses the declaration that they
are about. So a new report is inside a declaration that was under analysis until
then, and had been neither refused nor reported about. A declaration that is
refused without a report had looked up one that was refused before it and has no
type, by the premises of the act. -/
theorem act (h : Accounted s) (hbook : Book ctx s) (hact : Act ctx s t) : Accounted t := by
  have hsame := h.of_same hact
  have hinherits (x : String) (hx : Inherits s x) : Inherits t x := hx.act hact
  cases hact with
  | move | fold | evaluate | expand | reuse | declare | define => exact hsame rfl rfl h.named
  | resolve known => exact hsame rfl rfl (h.named_append fun x hx => (known x hx).1)
  | enter summons entry phase =>
    cases summons with
    | unbidden idle => exact hsame rfl rfl h.named
    | lookup => exact hsame rfl rfl (h.named_append fun x hx => (Binding.global.inj hx).symm)
  | @refuse u x top refusal =>
    have hnew : x ∉ s.failed := hbook.not_mem_failed (List.mem_of_mem_head? top)
    cases refusal with
    | reported d =>
      refine { named := h.named, inside := ?_, once := ?_, inherited := fun y hy hnot => ?_ }
      · refine List.forall_mem_append.mpr ⟨fun r hr => ?_, List.forall_mem_singleton.mpr ?_⟩
        · obtain ⟨y, hy, hinside⟩ := h.inside r hr
          exact ⟨y, List.mem_append_left _ hy, hinside⟩
        · exact ⟨x, List.mem_append_right _ (List.mem_singleton_self x), top⟩
      · have hfresh : s.active.head? ∉ s.reports.map (·.inside) := by
          intro hmem
          obtain ⟨r, hr, hinside⟩ := List.mem_map.mp hmem
          obtain ⟨y, hy, hr'⟩ := h.inside r hr
          have heq : some y = some x := hr'.symm.trans (hinside.trans top)
          exact hnew (Option.some.inj heq ▸ hy)
        show ((s.reports ++ [Report.mk s.active.head? d]).map Report.inside).Nodup
        rw [List.map_append]
        exact h.once.append (List.nodup_singleton _) (List.disjoint_singleton.mpr hfresh)
      · -- the declaration that is refused now has just reported
        obtain hy | hy := List.mem_append.mp hy
        · refine hinherits y (h.inherited y hy fun ⟨r, hr, hinside⟩ => hnot ?_)
          exact ⟨r, List.mem_append_left _ hr, hinside⟩
        · obtain rfl := List.mem_singleton.mp hy
          exact (hnot ⟨_, List.mem_append_right _ (List.mem_singleton_self _), top⟩).elim
    | @inherited y known failed unpublished =>
      refine { named := h.named, inside := fun r hr => ?_, once := h.once
               inherited := fun z hz hnot => ?_ }
      · obtain ⟨z, hz, hinside⟩ := h.inside r hr
        exact ⟨z, List.mem_append_left _ hz, hinside⟩
      · obtain hz | hz := List.mem_append.mp hz
        · exact hinherits z (h.inherited z hz hnot)
        · obtain rfl := List.mem_singleton.mp hz
          have hne : y ≠ z := fun heq => hnew (heq ▸ failed)
          exact ⟨y, List.mem_append_left _ failed, hne, unpublished,
            h.mem_resolutions (known z top)⟩

/-- **The account is kept all along a course.** -/
theorem course (h : Accounted s) (hbook : Book ctx s) (hc : Course ctx s t) : Accounted t := by
  induction hc with
  | refl => exact h
  | tail hc hact ih => exact ih.act (hbook.course hc) hact

/-- **There are no more reports than declarations that were refused.**

Every report is inside a declaration, no two are inside the same one, and these
declarations are refused. -/
theorem length_le (h : Accounted s) : s.diagnostics.length ≤ s.failed.length := by
  have hsub : s.reports.map (·.inside) ⊆ s.failed.map some := by
    intro inside hmem
    obtain ⟨r, hr, rfl⟩ := List.mem_map.mp hmem
    obtain ⟨x, hx, hinside⟩ := h.inside r hr
    exact hinside ▸ List.mem_map_of_mem hx
  have hle := (List.subperm_of_subset h.once hsub).length_le
  rw [List.length_map, List.length_map] at hle
  rwa [State.diagnostics, List.length_map]

end Accounted

end Stagewise.Analysis
