import Stagewise.Scope

/-!
# Names of declarations in scopes

A name that refers to a top-level declaration refers to the one of that very
name. Nothing in the definition of scopes says so, for an entry could be given
any binding, but the scopes of an analysis are **faithful**: they introduce
locals, and the outermost may introduce declarations under their own names.
Scopes stay faithful whatever is done in them, and what a faithful chain says
about a name is what the top level says, unless it is a local.

The top-level names are looked for, and the order they stand in does not matter.
Scopes that differ in that order alone are **alike** (`Scopes.Like`), and stay
so whatever is done in both.
-/

namespace Stagewise

namespace Scope

variable {names : List String} {s : Scope}

/-- **A faithful scope** introduces declarations under their own names. -/
def Faithful (names : List String) (s : Scope) : Prop :=
  ∀ e ∈ s.entries, ∀ x, e.binding = .global x → x = e.name.text ∧ x ∈ names

/-- A scope with no entries is faithful. -/
theorem faithful_empty : Faithful names {} := fun _ he => absurd he List.not_mem_nil

/-- What a faithful scope says of a declaration it says under its name. -/
theorem Faithful.eq_of_own? (h : s.Faithful names) {name x : String}
    (hx : s.own? name = some (.global x)) : x = name ∧ x ∈ names := by
  obtain ⟨e, he, hbinding⟩ := Option.map_eq_some_iff.mp hx
  have hname : e.name.text = name := by simpa using List.find?_some he
  exact hname ▸ h e (List.mem_of_find?_eq_some he) x hbinding

/-- A capture is no entry. -/
theorem Faithful.record (h : s.Faithful names) (dedup : Bool) (name : String) (b : Binding) :
    (s.record dedup name b).Faithful names := by
  unfold Scope.record
  split
  · exact h
  · exact h

/-- A local may be introduced under any name. -/
theorem Faithful.add (h : s.Faithful names) {name : Name} {b : Binding} {t : Scope}
    (hb : ∀ x, b = .global x → x = name.text ∧ x ∈ names) (ht : s.add name b = .ok t) :
    t.Faithful names := by
  unfold Scope.add at ht
  split at ht
  · cases ht
  · cases ht
    intro e he
    obtain he | he := List.mem_append.mp he
    · exact h e he
    · obtain rfl := List.mem_singleton.mp he
      exact hb

end Scope

namespace Scopes

variable {names : List String} {s : Scopes}

/-- **A faithful chain** is one of faithful scopes over the top-level names. -/
structure Faithful (names : List String) (s : Scopes) : Prop where
  topLevel : s.topLevel = names
  root : s.root.Faithful names
  inner : ∀ scope ∈ s.inner, scope.Faithful names

namespace Faithful

/-- In isolation there is nothing but the top level. -/
theorem isolated (h : s.Faithful names) : s.isolated.Faithful names where
  topLevel := h.topLevel
  root := Scope.faithful_empty
  inner _ hs := absurd hs List.not_mem_nil

/-- A new scope is empty. -/
theorem push (h : s.Faithful names) : s.push.Faithful names where
  topLevel := h.topLevel
  root := h.root
  inner := List.forall_mem_cons.mpr ⟨Scope.faithful_empty, h.inner⟩

/-- A chain with one scope less. -/
theorem pop (h : s.Faithful names) : s.pop.Faithful names where
  topLevel := h.topLevel
  root := h.root
  inner scope hs := h.inner scope (List.mem_of_mem_tail hs)

/-- The innermost scope of a faithful chain is faithful. -/
theorem current (h : s.Faithful names) : s.current.Faithful names := by
  unfold Scopes.current
  cases hinner : s.inner with
  | nil => exact h.root
  | cons scope outer => exact h.inner scope (hinner ▸ List.mem_cons_self)

/-- The innermost scope may be exchanged for a faithful one. -/
theorem setCurrent (h : s.Faithful names) {scope : Scope} (hscope : scope.Faithful names) :
    (s.setCurrent scope).Faithful names := by
  unfold Scopes.setCurrent
  split
  · exact { h with root := hscope }
  · rename_i outer hinner
    have houter := h.inner
    rw [hinner] at houter
    exact { h with
      inner := List.forall_mem_cons.mpr ⟨hscope, fun t ht => houter t (List.mem_cons_of_mem _ ht)⟩ }

/-- A name is introduced in the innermost scope. -/
theorem add (h : s.Faithful names) {name : Name} {b : Binding} {t : Scopes}
    (hb : ∀ x, b = .global x → x = name.text ∧ x ∈ names) (ht : s.add name b = .ok t) :
    t.Faithful names := by
  unfold Scopes.add at ht
  cases hadd : s.current.add name b with
  | error d =>
    rw [hadd] at ht
    cases ht
  | ok scope =>
    rw [hadd] at ht
    cases ht
    exact h.setCurrent (h.current.add hb hadd)

/-- **A name that refers to a declaration is its name.** -/
theorem eq_of_resolve (h : s.Faithful names) {name x : String}
    (hx : s.resolve name = some (.global x)) : x = name ∧ x ∈ names := by
  unfold Scopes.resolve at hx
  have hinner := h.inner
  generalize s.inner = inner at hinner hx
  induction inner with
  | nil =>
    unfold resolveIn rootBinding at hx
    split at hx
    · rename_i b hb
      exact h.root.eq_of_own? (hb.trans hx)
    · rw [h.topLevel] at hx
      split at hx
      · rename_i hmem
        cases hx
        exact ⟨rfl, hmem⟩
      · cases hx
  | cons scope outer ih =>
    obtain ⟨hscope, houter⟩ := List.forall_mem_cons.mp hinner
    unfold resolveIn at hx
    split at hx
    · rename_i b hb
      exact hscope.eq_of_own? (hb.trans hx)
    · exact ih houter hx

/-- Captures leave the chain faithful. -/
theorem captureIn {inner : List Scope} (h : ∀ scope ∈ inner, scope.Faithful names) (dedup : Bool)
    (name : String) (b : Binding) :
    ∀ scope ∈ Scopes.captureIn dedup name b inner, scope.Faithful names := by
  induction inner with
  | nil => exact h
  | cons scope outer ih =>
    obtain ⟨hscope, houter⟩ := List.forall_mem_cons.mp h
    unfold Scopes.captureIn
    split
    · exact h
    · exact List.forall_mem_cons.mpr ⟨hscope.record dedup name b, ih houter⟩

/-- Looking up a name leaves the chain faithful, and tells what the chain
says. -/
theorem get (h : s.Faithful names) {name : String} {b : Binding} {t : Scopes}
    (ht : s.get name = some (b, t)) :
    t.Faithful names ∧ ∀ x, b = .global x → x = name ∧ x ∈ names := by
  unfold Scopes.get at ht
  split at ht
  · rename_i c hc
    cases ht
    refine ⟨{ h with inner := captureIn h.inner _ _ _ }, ?_⟩
    rintro x rfl
    exact h.eq_of_resolve hc
  · cases ht

end Faithful

end Scopes

/-!
## Scopes over the same names

What a chain is in isolation does not change by what is done inside of it. Two
chains that agree but for the order of the top level agree on what names refer
to, and can be gone through side by side.
-/

namespace Scopes

variable {c d e : Scopes} {x : String} {name : Name} {b : Binding}

/-- The innermost scope has no part in isolation. -/
theorem isolated_setCurrent (c : Scopes) (scope : Scope) :
    (c.setCurrent scope).isolated = c.isolated := by
  unfold setCurrent
  cases c.inner <;> rfl

/-- A lookup leaves captures, which are inside. -/
theorem isolated_get (h : c.get x = some (b, e)) : e.isolated = c.isolated := by
  unfold Scopes.get at h
  split at h
  · cases h
    rfl
  · cases h

/-- A name is introduced inside. -/
theorem isolated_add (h : c.add name b = .ok e) : e.isolated = c.isolated := by
  unfold Scopes.add at h
  cases hscope : c.current.add name b with
  | error diagnostic =>
    rw [hscope] at h
    cases h
  | ok scope =>
    rw [hscope] at h
    cases h
    exact isolated_setCurrent c scope

/-- **Scopes are alike** if they differ in the order of the top-level names at
most. -/
structure Like (c d : Scopes) : Prop where
  topLevel : ∀ x, x ∈ d.topLevel ↔ x ∈ c.topLevel
  dedup : d.dedup = c.dedup
  inner : d.inner = c.inner
  root : d.root = c.root

namespace Like

theorem refl (c : Scopes) : c.Like c := ⟨fun _ => Iff.rfl, rfl, rfl, rfl⟩

theorem trans (h : c.Like d) (h' : d.Like e) : c.Like e where
  topLevel x := (h'.topLevel x).trans (h.topLevel x)
  dedup := h'.dedup.trans h.dedup
  inner := h'.inner.trans h.inner
  root := h'.root.trans h.root

/-- Their innermost scopes are the same. -/
theorem current (h : c.Like d) : d.current = c.current := by
  rw [Scopes.current, Scopes.current, h.inner, h.root]

/-- A name refers to the same thing in both. -/
theorem resolve (h : c.Like d) (x : String) : d.resolve x = c.resolve x := by
  simp only [Scopes.resolve, rootBinding, h.inner, h.root, h.topLevel x]

theorem push (h : c.Like d) : c.push.Like d.push :=
  ⟨h.topLevel, h.dedup, congrArg (List.cons ({} : Scope)) h.inner, h.root⟩

theorem pop (h : c.Like d) : c.pop.Like d.pop :=
  ⟨h.topLevel, h.dedup, congrArg List.tail h.inner, h.root⟩

theorem setCurrent (h : c.Like d) (scope : Scope) :
    (c.setCurrent scope).Like (d.setCurrent scope) := by
  obtain ⟨topLevel, dedup, inner, root⟩ := c
  obtain ⟨topLevel', dedup', inner', root'⟩ := d
  obtain ⟨htop, rfl, rfl, rfl⟩ := h
  cases inner' with
  | nil => exact ⟨htop, rfl, rfl, rfl⟩
  | cons => exact ⟨htop, rfl, rfl, rfl⟩

end Like

/-- A name is found in scopes that are alike, or in none of them. -/
theorem Like.get (h : c.Like d) (hget : c.get x = some (b, e)) :
    ∃ e', d.get x = some (b, e') ∧ e.Like e' := by
  unfold Scopes.get at hget ⊢
  rw [h.resolve]
  cases hresolve : c.resolve x with
  | none =>
    rw [hresolve] at hget
    cases hget
  | some b' =>
    rw [hresolve] at hget
    cases hget
    refine ⟨_, rfl, h.topLevel, h.dedup, ?_, h.root⟩
    rw [h.dedup, h.inner]

/-- A name is introduced in scopes that are alike, or in none of them. -/
theorem Like.add (h : c.Like d) (hadd : c.add name b = .ok e) :
    ∃ e', d.add name b = .ok e' ∧ e.Like e' := by
  unfold Scopes.add at hadd ⊢
  rw [h.current]
  cases hscope : c.current.add name b with
  | error diagnostic =>
    rw [hscope] at hadd
    cases hadd
  | ok scope =>
    rw [hscope] at hadd
    cases hadd
    exact ⟨_, rfl, h.setCurrent scope⟩

end Scopes

end Stagewise
