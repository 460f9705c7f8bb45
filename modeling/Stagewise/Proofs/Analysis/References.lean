import Mathlib.Data.List.Chain
import Stagewise.Proofs.Analysis.Book

/-!
# References and the order of definitions

A declaration is analyzed in the middle of another because the other referred to
it. So the declarations under analysis form a chain of references, from the one
that began it to the one at hand (`References.chained`). If the one at hand
refers to one of them again, then there is a circle of references.

This settles where a definition can stand with respect to those that refer to
it. When a declaration refers to another, then the other is defined already, or
it is defined next, before the first one is, or it is under analysis. In the
last case its type has to be known, and so it is a function, from which the
first is reached (`References.ordered`). The other way out is that it is
refused.
-/

namespace Stagewise.Analysis

open Relation

variable {β : Type} {ctx : Context β} {s t : State β} {a x y : String}

/-! ## References -/

/-- One more lookup makes for one more reference, if it was of a declaration. -/
theorem refers_append {rs : List Resolution} {inside : Option String} {name : String}
    {binding : Binding} (h : Refers (rs ++ [⟨inside, name, binding⟩]) a x) :
    Refers rs a x ∨ inside = some a ∧ (∃ y, binding = .global y) ∧ x = name := by
  unfold Refers Compile.references at h
  rw [List.filterMap_append, List.mem_append] at h
  refine h.imp_right fun h => ?_
  obtain ⟨r, hr, h⟩ := List.mem_filterMap.mp h
  obtain rfl := List.mem_singleton.mp hr
  cases inside with
  | none => cases h
  | some d =>
    cases binding with
    | lexical l => cases h
    | global y =>
      cases h
      exact ⟨rfl, ⟨y, rfl⟩, rfl⟩

/-- **A chain of references** leads from each of its members to the first. -/
theorem reaches_of_isChain {rs : List Resolution} {active : List String}
    (h : active.IsChain fun x y => Refers rs y x) (htop : active.head? = some a)
    (hx : x ∈ active) : ReflTransGen (Refers rs) x a := by
  induction active generalizing a with
  | nil => cases hx
  | cons c active ih =>
    obtain rfl := Option.some.inj htop
    obtain ⟨hhead, hchain⟩ := List.isChain_cons.mp h
    obtain rfl | hx := List.mem_cons.mp hx
    · exact .refl
    · cases active with
      | nil => cases hx
      | cons d active => exact (ih hchain rfl hx).tail (hhead d rfl)

/-- What is reached stays reached. -/
theorem reaches_mono {rs rs' : List Resolution} (hle : rs <+: rs')
    (h : ReflTransGen (Refers rs) x a) : ReflTransGen (Refers rs') x a :=
  ReflTransGen.mono (fun _ _ hr => Refers.mono hr hle) _ _ h

/-! ## Order -/

/-- **What becomes of a reference** from one declaration to another. -/
inductive Ordered (ctx : Context β) (s : State β) (a x : String) : Prop where
  /-- The other is refused. -/
  | failed (refused : x ∈ s.failed)
  /-- The other is defined before. -/
  | before (order : [x, a].Sublist s.defined)
  /-- The other is defined, and the one that refers to it is not yet. -/
  | ahead (defined : x ∈ s.defined) (undefined : a ∉ s.defined)
  /-- The other is a function that refers back. -/
  | circular (function : ctx.declarations.isFunction x = true)
    (back : ReflTransGen (Refers s.resolutions) x a)

/-- **The references are in order.** -/
structure References (ctx : Context β) (s : State β) : Prop where
  chained : s.active.IsChain fun x y => Refers s.resolutions y x
  inside : ∀ a x, Refers s.resolutions a x → a ∈ ctx.declarations.names
  ordered : ∀ a x, Refers s.resolutions a x → Ordered ctx s a x ∨ [x, a] <:+: s.active

/-- What has become of a reference stays so while other names are looked up and
other declarations refused. -/
theorem Ordered.mono (h : Ordered ctx s a x) (hfailed : s.failed ⊆ t.failed)
    (hdefined : t.defined = s.defined) (hle : s.resolutions <+: t.resolutions) :
    Ordered ctx t a x := by
  cases h with
  | failed refused => exact .failed (hfailed refused)
  | before order => exact .before (hdefined ▸ order)
  | ahead defined undefined => exact .ahead (hdefined ▸ defined) (hdefined ▸ undefined)
  | circular function back =>
    exact .circular function (reaches_mono hle back)

/-- It stays so when one more declaration is defined, since that comes after all
that were. -/
theorem Ordered.define (h : Ordered ctx s a x) (hfailed : t.failed = s.failed)
    (hdefined : t.defined = s.defined ++ [y]) (hresolutions : t.resolutions = s.resolutions) :
    Ordered ctx t a x := by
  cases h with
  | failed refused => exact .failed (hfailed ▸ refused)
  | before order => exact .before (hdefined ▸ order.trans (List.sublist_append_left _ _))
  | ahead defined undefined =>
    by_cases ha : a = y
    · subst ha
      refine .before (hdefined ▸ ?_)
      exact (List.singleton_sublist.mpr defined).append (List.Sublist.refl [a])
    · refine .ahead (hdefined ▸ List.mem_append_left _ defined) (hdefined ▸ ?_)
      simp [undefined, ha]
  | circular function back => exact .circular function (hresolutions ▸ back)

namespace References

/-- A name that was looked up and found with a type, or refused, is in order. -/
theorem ordered_resolve (h : References ctx s) (hbook : Book ctx s)
    (top : s.active.head? = some a)
    (known : (s.types.lookup x).isSome = true ∨ x ∈ s.failed) :
    Ordered ctx (s.resolve x (.global x)) a x := by
  obtain hpublished | hfailed := known
  · obtain ⟨p, hp⟩ := hbook.standing x
    obtain ⟨q, hq⟩ := hbook.standing a
    have ha : a ∉ s.defined := by
      have hactive := hq.active.mp (List.mem_of_mem_head? top)
      rw [hq.defined]
      rintro rfl
      cases hactive
    have hpublished := hp.published.symm.trans hpublished
    cases p with
    | untouched | begun | dropped => cases hpublished
    | announced =>
      have hback := reaches_of_isChain h.chained top (hp.active.mpr rfl)
      exact .circular hpublished (reaches_mono (List.prefix_append _ _) hback)
    | settled => exact .ahead (hp.defined.mpr rfl) ha
    | abandoned => exact .failed (hp.failed.mpr rfl)
  · exact .failed hfailed

/-- Nothing has happened that has to do with references. -/
theorem of_same (h : References ctx s) (hactive : t.active = s.active)
    (hdefined : t.defined = s.defined) (hfailed : t.failed = s.failed)
    (hresolutions : t.resolutions = s.resolutions) : References ctx t where
  chained := by rw [hactive, hresolutions]; exact h.chained
  inside a x hx := h.inside a x (hresolutions ▸ hx)
  ordered a x hx := by
    rw [hactive]
    refine (h.ordered a x (hresolutions ▸ hx)).imp_left fun ho => ?_
    exact ho.mono (hfailed ▸ fun _ h => h) hdefined (hresolutions ▸ List.prefix_rfl)

/-- What refers to something is a declaration. -/
theorem inside_resolve (h : References ctx s) (hbook : Book ctx s) {name : String}
    {binding : Binding} (hx : Refers (s.resolve name binding).resolutions a x) :
    a ∈ ctx.declarations.names := by
  obtain hx | ⟨top, -, -⟩ := refers_append hx
  · exact h.inside a x hx
  · obtain ⟨p, hp⟩ := hbook.standing a
    have hactive := hp.active.mp (List.mem_of_mem_head? top)
    exact hp.declared (by rintro rfl; cases hactive)

/-- A chain of references stays one. -/
theorem chained_mono (h : References ctx s) {rs : List Resolution} (hle : s.resolutions <+: rs) :
    s.active.IsChain fun x y => Refers rs y x :=
  h.chained.imp fun _ _ hr => Refers.mono hr hle

/-- References are in order when a declaration was entered. -/
theorem enter (h : References ctx s) (hbook : Book ctx s) (summons : Summons s x t) :
    References ctx { t with active := x :: t.active } := by
  have hsuffix : s.active <:+: x :: s.active := (List.suffix_cons _ _).isInfix
  cases summons with
  | unbidden idle =>
    refine { h with chained := by simp [idle], ordered := fun a y hy => ?_ }
    exact (h.ordered a y hy).imp (fun ho => ho.mono (fun _ h => h) rfl List.prefix_rfl)
      fun hinfix => hinfix.trans hsuffix
  | lookup =>
    have hle : s.resolutions <+: (s.resolve x (.global x)).resolutions := List.prefix_append _ _
    refine ⟨List.isChain_cons.mpr ⟨fun y hy => ?_, h.chained_mono hle⟩,
      fun a y => h.inside_resolve hbook, fun a y hy => ?_⟩
    · rw [State.resolve, show s.active.head? = some y from hy]
      exact refers_append_global
    · obtain hy | ⟨top, -, rfl⟩ := refers_append hy
      · exact (h.ordered a y hy).imp (fun ho => ho.mono (fun _ h => h) rfl hle)
          fun hinfix => hinfix.trans hsuffix
      · right
        show [y, a] <:+: y :: s.active
        rw [eq_cons_of_head? top]
        exact (List.prefix_append [y, a] s.active.tail).isInfix

/-- References are in order when the declaration at hand was left, if those that
led to it are. -/
theorem leave (h : References ctx s) (top : s.active.head? = some y)
    (hactive : t.active = s.active.tail) (hresolutions : t.resolutions = s.resolutions)
    (hold : ∀ a x, Ordered ctx s a x → Ordered ctx t a x)
    (hnew : ∀ a ∈ s.active.tail, Ordered ctx t a y) : References ctx t where
  chained := by
    rw [hactive, hresolutions]
    exact h.chained.tail
  inside a x hx := h.inside a x (hresolutions ▸ hx)
  ordered a x hx := by
    obtain ho | hinfix := h.ordered a x (hresolutions ▸ hx)
    · exact .inl (hold a x ho)
    · rw [eq_cons_of_head? top, List.infix_cons_iff] at hinfix
      obtain hfirst | hinfix := hinfix
      · obtain ⟨rfl, hrest⟩ := List.cons_prefix_cons.mp hfirst
        exact .inl (hnew a (hrest.subset (List.mem_singleton_self a)))
      · exact .inr (hactive ▸ hinfix)

/-- **Every act keeps the references in order.**

Two acts matter. When a name is looked up that is found, there is a new
reference, and its declaration has a type or was refused, so one of the cases of
`Ordered` holds. When a declaration is entered, it is put on top of the chain,
as it was looked up by the one that is now below it. All other acts leave the
references as they are or move on the declaration at the top. -/
theorem act (h : References ctx s) (hbook : Book ctx s) (hact : Act ctx s t) :
    References ctx t := by
  cases hact with
  | move scopes inAscription faithful => exact h.of_same rfl rfl rfl rfl
  | @resolve name binding known =>
    have hle : s.resolutions <+: (s.resolve name binding).resolutions := List.prefix_append _ _
    refine ⟨h.chained_mono hle, fun a y => h.inside_resolve hbook, fun a y hy => ?_⟩
    obtain hy | ⟨top, ⟨z, rfl⟩, rfl⟩ := refers_append hy
    · exact (h.ordered a y hy).imp_left fun ho => ho.mono (fun _ h => h) rfl hle
    · obtain ⟨rfl, hknown⟩ := known z rfl
      exact .inl (h.ordered_resolve hbook top hknown)
  | fold => exact h.of_same rfl rfl rfl rfl
  | evaluate due accepted => exact h.of_same rfl rfl rfl rfl
  | expand due accepted answer => exact h.of_same rfl rfl rfl rfl
  | reuse => exact h.of_same rfl rfl rfl rfl
  | enter summons entry phase => exact (h.enter hbook summons).of_same rfl rfl rfl rfl
  | declare entry about due publishes accepted => exact h.of_same rfl rfl rfl rfl
  | @define d subject text ty v entry about due learns accepted =>
    obtain - | ⟨top, about', phase, -, -⟩ := due
    obtain rfl := Option.some.inj (about.symm.trans about')
    refine h.leave top rfl rfl (fun a x ho => ho.define rfl rfl rfl) fun a ha => ?_
    refine .ahead (List.mem_append_right _ (List.mem_singleton_self _)) ?_
    have hne : a ≠ d.name := fun h => not_mem_tail hbook.active top (h ▸ ha)
    obtain ⟨p, hp⟩ := hbook.standing a
    have hactive := hp.active.mp (List.mem_of_mem_tail ha)
    have hundefined : a ∉ s.defined := by
      rw [hp.defined]
      rintro rfl
      cases hactive
    simp [hundefined, hne]
  | @refuse u y top refusal =>
    have hleave := h.leave (t := { u.leave y with failed := u.failed ++ [y] }) top
    cases refusal
    all_goals
      exact hleave rfl rfl
        (fun a x ho => ho.mono (List.subset_append_left _ _) rfl List.prefix_rfl)
        (fun a ha => .failed (List.mem_append_right _ (List.mem_singleton_self y)))

/-- **The references are in order all along a course.** -/
theorem course (h : References ctx s) (hbook : Book ctx s) (hc : Course ctx s t) :
    References ctx t := by
  induction hc with
  | refl => exact h
  | tail hc hact ih => exact ih.act (hbook.course hc) hact

end References

end Stagewise.Analysis
