import Mathlib.Data.List.Basic
import Stagewise.Proofs.Term.Rules

/-!
# Scopes as environments

A chain of scopes tells what names refer to, and so it is an environment. It is
more than that, since it keeps track of what was looked up, and a chain that is
only looked at changes all the time. What does not change is the chain without
its captures (`Scopes.bare`): a place in a program is known by it, and it tells
as much about names as the chain does.

A scope is entered, and locals are introduced in it one after the other. The
chain is then still **inside** the one it was opened in, which is what is left
when the scope is (`Scopes.Inside`).
-/

namespace Stagewise

/-- A scope without its captures. -/
def Scope.bare (s : Scope) : Scope := { s with captures := [] }

/-- To record a capture changes nothing else. -/
theorem Scope.bare_record (s : Scope) (dedup : Bool) (name : String) (b : Binding) :
    (s.record dedup name b).bare = s.bare := by
  unfold Scope.record
  split
  · rfl
  · rfl

/-- A name is found in the scope after it was introduced, and other names are
found as before. -/
theorem Scope.own?_add {s t : Scope} {name : Name} {b : Binding} (h : s.add name b = .ok t)
    (x : String) : t.own? x = if x = name.text then some b else s.own? x := by
  unfold Scope.add at h
  split at h
  · cases h
  rename_i hnew
  cases h
  simp only [Scope.own?, Scope.find?, List.find?_append]
  split
  · rename_i hx
    subst hx
    rw [show s.entries.find? _ = none from hnew]
    simp
  · rename_i hx
    have hne : name.text ≠ x := Ne.symm hx
    simp [hne]

namespace Scopes

variable {s t c d : Scopes} {name : Name} {b : Binding}

/-- **A chain of scopes without its captures.** -/
def bare (s : Scopes) : Scopes := { s with inner := s.inner.map Scope.bare }

/-- Captures are not asked what a name refers to. -/
@[simp] theorem resolve_bare (s : Scopes) : s.bare.resolve = s.resolve := by
  funext x
  show resolveIn (s.rootBinding x) x (s.inner.map Scope.bare) =
    resolveIn (s.rootBinding x) x s.inner
  induction s.inner with
  | nil => rfl
  | cons scope outer ih =>
    rw [List.map_cons, resolveIn, resolveIn, ih]
    rfl

/-- A scope is left with its captures or without them. -/
theorem bare_pop (s : Scopes) : s.pop.bare = s.bare.pop := by
  simp [bare, pop]

/-- A lookup leaves captures on its way, and they do not show without
captures. -/
theorem map_bare_captureIn (dedup : Bool) (x : String) (b : Binding) (inner : List Scope) :
    (captureIn dedup x b inner).map Scope.bare = inner.map Scope.bare := by
  induction inner with
  | nil => rfl
  | cons scope outer ih =>
    unfold captureIn
    split
    · rfl
    · rw [List.map_cons, List.map_cons, Scope.bare_record, ih]

/-- **Looking up a name** tells what it refers to, and leaves captures and
nothing else. -/
theorem of_get_eq_some {x : String} (h : s.get x = some (b, t)) :
    s.resolve x = some b ∧ t.bare = s.bare := by
  unfold Scopes.get at h
  split at h
  · rename_i hresolve
    cases h
    refine ⟨hresolve, ?_⟩
    simp [bare, map_bare_captureIn]
  · cases h

/-!
## Locals

A name is introduced in the innermost scope. There it hides what the scopes
around say about it, and about all other names they say what they said.
-/

/-- A name is introduced in the chain by introducing it in the innermost
scope. -/
theorem of_add_eq_ok (h : s.add name b = .ok t) :
    ∃ scope, s.current.add name b = .ok scope ∧ t = s.setCurrent scope := by
  unfold Scopes.add at h
  cases hadd : s.current.add name b with
  | error d =>
    rw [hadd] at h
    cases h
  | ok scope =>
    rw [hadd] at h
    exact ⟨scope, rfl, (Except.ok.inj h).symm⟩

/-- What the innermost scope says about a name comes first. -/
theorem resolve_of_own? (s : Scopes) {x : String} (h : s.current.own? x = some b) :
    s.resolve x = some b := by
  obtain ⟨topLevel, dedup, inner, root⟩ := s
  cases inner with
  | nil => simp only [resolve, resolveIn, rootBinding, show root.own? x = some b from h]
  | cons scope outer => simp only [resolve, resolveIn, show scope.own? x = some b from h]

/-- What the scopes further out say does not change with the innermost. -/
theorem resolve_setCurrent (s : Scopes) {scope : Scope} {x : String}
    (h : scope.own? x = s.current.own? x) : (s.setCurrent scope).resolve x = s.resolve x := by
  obtain ⟨topLevel, dedup, inner, root⟩ := s
  cases inner with
  | nil =>
    simp only [resolve, setCurrent, resolveIn, rootBinding, show scope.own? x = root.own? x from h]
    rfl
  | cons innermost outer =>
    simp only [resolve, setCurrent, resolveIn, show scope.own? x = innermost.own? x from h]
    rfl

/-- The innermost scope is the one that was put there. -/
theorem current_setCurrent (s : Scopes) (scope : Scope) : (s.setCurrent scope).current = scope := by
  obtain ⟨topLevel, dedup, inner, root⟩ := s
  cases inner <;> rfl

/-- **A local hides** what its name referred to. -/
theorem resolve_add {l : Local} (h : s.add l.name (.lexical l) = .ok t) :
    t.resolve = Env.bind s.resolve l := by
  obtain ⟨scope, hscope, rfl⟩ := of_add_eq_ok h
  funext x
  have hown := Scope.own?_add hscope x
  unfold Env.bind
  split at hown
  · rw [if_pos ‹_›]
    rw [← current_setCurrent s scope] at hown
    exact resolve_of_own? _ hown
  · rw [if_neg ‹_›]
    exact resolve_setCurrent s hown

/-- **A chain is inside another**: it has one scope more. -/
structure Inside (c d : Scopes) : Prop where
  inner : d.inner ≠ []
  pop : d.pop = c

/-- A scope that was just opened is inside. -/
theorem inside_push (c : Scopes) : Inside c c.push where
  inner := List.cons_ne_nil _ _
  pop := rfl

/-- To introduce a name in a scope does not lead out of it. -/
theorem Inside.add (h : Inside c s.bare) (ht : s.add name b = .ok t) : Inside c t.bare := by
  obtain ⟨hinner, rfl⟩ := h
  obtain ⟨scope, -, rfl⟩ := of_add_eq_ok ht
  obtain ⟨topLevel, dedup, inner, root⟩ := s
  cases inner with
  | nil => exact absurd rfl hinner
  | cons innermost outer => exact ⟨List.cons_ne_nil _ _, rfl⟩

end Scopes

end Stagewise
