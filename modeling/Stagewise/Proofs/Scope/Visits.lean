import Mathlib.Data.List.Induction
import Stagewise.Proofs.Scope.History

/-!
# Looking up one name after another

Lookups leave captures and nothing else, so a chain that has been **visited**
for some names says what it said before, and how it looks can be told scope by
scope. The innermost scope has captured the names that it does not introduce
itself, each once and in order, and the scopes around it look as if those names
had been looked up from there.
-/

namespace Stagewise

/-- The first of equal elements come in order. -/
theorem pairwise_eraseDups {α : Type} [DecidableEq α] (l : List α) :
    l.eraseDups.Pairwise fun a b => l.idxOf a < l.idxOf b := by
  induction l using List.reverseRecOn with
  | nil => exact .nil
  | append_singleton l a ih =>
    have hbefore : l.eraseDups.Pairwise fun b c => (l ++ [a]).idxOf b < (l ++ [a]).idxOf c := by
      refine ih.imp_of_mem fun hb hc hlt => ?_
      rw [List.idxOf_append_of_mem (List.mem_eraseDups.mp hb),
        List.idxOf_append_of_mem (List.mem_eraseDups.mp hc)]
      exact hlt
    rw [Scopes.eraseDups_concat]
    split
    next => exact hbefore
    next ha =>
      refine List.pairwise_append.mpr ⟨hbefore, List.pairwise_singleton _ _, fun b hb c hc => ?_⟩
      obtain rfl := List.mem_singleton.mp hc
      have hb := List.mem_eraseDups.mp hb
      rw [List.idxOf_append_of_mem hb, List.idxOf_append_of_notMem ha]
      exact Nat.lt_add_right _ (List.idxOf_lt_length_iff.mpr hb)

/-- A name that is introduced is captured nowhere. -/
theorem Scope.captures_of_add {s t : Scope} {name : Name} {b : Binding} (h : s.add name b = .ok t) :
    t.captures = s.captures := by
  unfold Scope.add at h
  split at h
  · cases h
  · cases h
    rfl

namespace Scopes

variable {s c d : Scopes} {x : String} {xs ys names : List String} {name : Name} {b : Binding}

/-!
## What a lookup leaves

For the innermost scope there are two kinds of names. Those that it introduces
are found at once and leave nothing. The others mean what they mean outside, and
are captured on the way.
-/

/-- A name that refers to nothing leaves nothing. -/
theorem after_get_of_none (h : s.resolve x = none) : s.after (.get x) = s := by
  simp [after, get, h]

/-- A name that refers to something leaves captures on the way to it. -/
theorem after_get_of_some (h : s.resolve x = some b) :
    s.after (.get x) = { s with inner := captureIn s.dedup x b s.inner } := by
  simp [after, get, h]

/-- It leaves captures and nothing else. -/
theorem bare_after_get (s : Scopes) (x : String) : (s.after (.get x)).bare = s.bare := by
  cases h : s.resolve x with
  | none => rw [after_get_of_none h]
  | some b => rw [after_get_of_some h, bare, map_bare_captureIn, bare]

/-- A name that the innermost scope introduces is found there. -/
theorem after_get_of_own (h : s.inner ≠ []) (hown : s.current.own? x = some b) :
    s.after (.get x) = s := by
  obtain ⟨topLevel, dedup, inner, root⟩ := s
  cases inner with
  | nil => exact absurd rfl h
  | cons scope outer =>
    have hscope : scope.own? x = some b := hown
    rw [after_get_of_some (resolve_of_own? _ hown)]
    simp only [captureIn, hscope]

/-- Other names mean what they mean outside. -/
theorem resolve_pop (h : s.inner ≠ []) (hown : s.current.own? x = none) :
    s.pop.resolve x = s.resolve x := by
  obtain ⟨topLevel, dedup, inner, root⟩ := s
  cases inner with
  | nil => exact absurd rfl h
  | cons scope outer =>
    have hscope : scope.own? x = none := hown
    simp only [resolve, pop, List.tail_cons, resolveIn, hscope]
    rfl

/-- Other names are looked up outside, and the innermost scope captures them. -/
theorem after_get_of_not_own (h : s.inner ≠ []) (hown : s.current.own? x = none) :
    (s.after (.get x)).pop = s.pop.after (.get x) ∧
      ∀ b, s.resolve x = some b → (s.after (.get x)).current = s.current.record s.dedup x b := by
  have hpop := resolve_pop h hown
  cases hb : s.resolve x with
  | none =>
    rw [after_get_of_none hb, after_get_of_none (hpop.trans hb)]
    exact ⟨rfl, fun b hb => by cases hb⟩
  | some b =>
    rw [after_get_of_some hb, after_get_of_some (hpop.trans hb)]
    obtain ⟨topLevel, dedup, inner, root⟩ := s
    cases inner with
    | nil => exact absurd rfl h
    | cons scope outer =>
      have hscope : scope.own? x = none := hown
      simp only [captureIn, hscope]
      exact ⟨rfl, fun b' hb' => Option.some.inj hb' ▸ rfl⟩

/-!
## Visits

A chain that was visited is the same chain without its captures, so it can be
asked the same questions.
-/

/-- **Look up names**, one after the other. -/
def visit (s : Scopes) (xs : List String) : Scopes := s.run (xs.map .get)

@[simp] theorem visit_nil (s : Scopes) : s.visit [] = s := rfl

theorem visit_cons (s : Scopes) (x : String) (xs : List String) :
    s.visit (x :: xs) = (s.after (.get x)).visit xs := rfl

/-- Names are looked up one after the other. -/
theorem visit_append (s : Scopes) (xs ys : List String) :
    s.visit (xs ++ ys) = (s.visit xs).visit ys := by
  rw [visit, visit, visit, List.map_append, run, List.foldl_append]
  rfl

/-- Visits leave captures and nothing else. -/
theorem bare_visit (s : Scopes) (xs : List String) : (s.visit xs).bare = s.bare := by
  induction xs generalizing s with
  | nil => rfl
  | cons x xs ih => rw [visit_cons, ih, bare_after_get]

@[simp] theorem resolve_visit (s : Scopes) (xs : List String) :
    (s.visit xs).resolve = s.resolve := by
  rw [← resolve_bare, bare_visit, resolve_bare]

@[simp] theorem dedup_visit (s : Scopes) (xs : List String) : (s.visit xs).dedup = s.dedup :=
  (congrArg Scopes.dedup (bare_visit s xs) :)

/-- What a scope introduces is no matter of captures. -/
theorem own?_current_bare (s : Scopes) (x : String) : s.bare.current.own? x = s.current.own? x := by
  obtain ⟨topLevel, dedup, inner, root⟩ := s
  cases inner <;> rfl

/-- A scope introduces the same names after a visit. -/
theorem own?_current_visit (s : Scopes) (xs : List String) (x : String) :
    (s.visit xs).current.own? x = s.current.own? x := by
  rw [← own?_current_bare, bare_visit, own?_current_bare]

/-- No scope is left by a visit. -/
theorem inner_visit_ne_nil (h : s.inner ≠ []) (xs : List String) : (s.visit xs).inner ≠ [] := by
  have hinner : (s.visit xs).inner.map Scope.bare = s.inner.map Scope.bare :=
    (congrArg Scopes.inner (bare_visit s xs) :)
  intro hnil
  rw [hnil] at hinner
  exact h (List.map_eq_nil_iff.mp hinner.symm)

/-!
## Scopes that are open

While a scope is open, names are introduced in it and names are looked up from
it, in turns. What has to be known about it is the chain it was opened in and
the names that it has introduced so far.
-/

/-- **A scope is open inside a chain**, and has introduced some names. -/
structure Opened (c : Scopes) (names : List String) (d : Scopes) : Prop where
  inner : d.inner ≠ []
  pop : d.pop = c
  own : ∀ x, d.current.own? x = none ↔ x ∉ names

namespace Opened

/-- A scope that was just opened has introduced nothing. -/
theorem push (c : Scopes) : Opened c [] c.push where
  inner := List.cons_ne_nil _ _
  pop := rfl
  own _ := iff_of_true rfl List.not_mem_nil

/-- One more name is introduced, and nothing is captured by it. -/
theorem add (h : Opened c names d) (hadd : d.add name b = .ok s) :
    Opened c (name.text :: names) s ∧ s.current.captures = d.current.captures ∧
      s.dedup = d.dedup := by
  obtain ⟨scope, hscope, rfl⟩ := of_add_eq_ok hadd
  have hown := Scope.own?_add hscope
  have hcaptures := Scope.captures_of_add hscope
  obtain ⟨hinner, hpop, hnames⟩ := h
  obtain ⟨topLevel, dedup, inner, root⟩ := d
  cases inner with
  | nil => exact absurd rfl hinner
  | cons innermost outer =>
    refine ⟨⟨List.cons_ne_nil _ _, hpop, fun x => ?_⟩, hcaptures, rfl⟩
    rw [current_setCurrent, hown, List.mem_cons, not_or, ← hnames x]
    by_cases hx : x = name.text <;> simp [hx]

/-- The order in which names were introduced does not matter. -/
theorem congr (h : Opened c names d) (hnames : ∀ x, x ∈ xs ↔ x ∈ names) : Opened c xs d :=
  { h with own := fun x => (h.own x).trans (not_congr (hnames x)).symm }

/-- Names that the scope has not introduced mean what they mean outside. -/
theorem resolve_eq (h : Opened c names d) (hx : x ∉ names) : d.resolve x = c.resolve x := by
  rw [← h.pop, resolve_pop h.inner ((h.own x).mpr hx)]

/-- **Names that are looked up in the open scope** are looked up outside, but
for those that it has introduced. -/
theorem visit (h : Opened c names d) (xs : List String) :
    Opened (c.visit (xs.filter (· ∉ names))) names (d.visit xs) := by
  induction xs generalizing c d with
  | nil => exact h
  | cons x xs ih =>
    rw [visit_cons]
    by_cases hx : x ∈ names
    · obtain ⟨b, hb⟩ : ∃ b, d.current.own? x = some b :=
        Option.ne_none_iff_exists'.mp fun hnone => (h.own x).mp hnone hx
      rw [after_get_of_own h.inner hb, List.filter_cons_of_neg (by simpa using hx)]
      exact ih h
    · obtain ⟨hpop, -⟩ := after_get_of_not_own h.inner ((h.own x).mpr hx)
      rw [List.filter_cons_of_pos (by simpa using hx), visit_cons]
      exact ih ⟨inner_visit_ne_nil h.inner [x], h.pop ▸ hpop,
        fun y => by rw [← h.own y, ← own?_current_visit d [x] y]; rfl⟩

/-- **A scope captures** the names that are looked up in it, each once and in
order, but for those that it has introduced.

By induction on the names that are looked up. A name that the scope has
introduced leaves nothing here. Any other is captured unless it was before, and
this is how the first of equal elements are kept. -/
theorem captures_visit (h : Opened c names d) (hdedup : d.dedup = true)
    (hnew : d.current.captures = []) (xs : List String) :
    (d.visit xs).current.captures =
      (xs.filter (· ∉ names)).eraseDups.filterMap fun x => (c.resolve x).map (⟨x, ·⟩) := by
  induction xs using List.reverseRecOn with
  | nil => exact hnew
  | append_singleton xs x ih =>
    have hopened := h.visit xs
    rw [visit_append, visit_cons, visit_nil, List.filter_append]
    by_cases hx : x ∈ names
    · obtain ⟨b, hb⟩ : ∃ b, (d.visit xs).current.own? x = some b :=
        Option.ne_none_iff_exists'.mp fun hnone => (hopened.own x).mp hnone hx
      rw [after_get_of_own hopened.inner hb, ih, List.filter_cons_of_neg (by simpa using hx),
        List.filter_nil, List.append_nil]
    · have hresolve : (d.visit xs).resolve x = c.resolve x := by
        rw [resolve_visit, h.resolve_eq hx]
      rw [List.filter_cons_of_pos (by simpa using hx), List.filter_nil, eraseDups_concat]
      cases hb : c.resolve x with
      | none =>
        rw [after_get_of_none (hresolve.trans hb), ih]
        split <;> simp [hb]
      | some b =>
        obtain ⟨-, hcurrent⟩ := after_get_of_not_own hopened.inner ((hopened.own x).mpr hx)
        -- a capture of this name is there if it was looked up before
        have hany : ((d.visit xs).current.captures.any (·.name = x)) = true ↔
            x ∈ xs.filter (· ∉ names) := by
          rw [ih]
          simp only [List.any_eq_true, List.mem_filterMap, List.mem_eraseDups]
          constructor
          · rintro ⟨_, ⟨y, hy, hcapture⟩, hname⟩
            obtain ⟨b', -, rfl⟩ := Option.map_eq_some_iff.mp hcapture
            exact of_decide_eq_true hname ▸ hy
          · exact fun hmem => ⟨⟨x, b⟩, ⟨x, hmem, by rw [hb, Option.map_some]⟩, decide_eq_true rfl⟩
        rw [hcurrent b (hresolve.trans hb), dedup_visit, hdedup, Scope.record, Bool.true_and]
        simp only [hany]
        split
        next => exact ih
        next => simp [ih, hb]

end Opened

end Scopes

end Stagewise
