import Stagewise.Proofs.Environment

/-!
# Scopes that are gone through twice

When something is checked again in the place where it was checked before, the
scopes around it are the same but for their captures: the first time has left
some. The scopes that are opened on the way are opened anew, and the same is
captured in them as in the first time. So two chains of scopes are compared in
two ways at once (`Scopes.Matches`), without captures as far as they were there
before, and with them as far as they were opened since.
-/

namespace Stagewise

/-- Whether a name can be introduced is a matter of the entries. -/
theorem Scope.add_congr {s s' t : Scope} {name : Name} {b : Binding} (h : s'.bare = s.bare)
    (hadd : s.add name b = .ok t) : ∃ t', s'.add name b = .ok t' ∧ t'.bare = t.bare := by
  have hentries : s'.entries = s.entries := (congrArg Scope.entries h :)
  unfold Scope.add Scope.find? at hadd ⊢
  rw [hentries]
  cases hfind : s.entries.find? (·.name.text = name.text) with
  | some e =>
    rw [hfind] at hadd
    cases hadd
  | none =>
    rw [hfind] at hadd
    cases hadd
    exact ⟨_, rfl, rfl⟩

namespace Scopes

variable {c d e : Scopes} {k : Nat} {x : String} {name : Name} {b : Binding}

/-- **Two chains match**: they are the same place, and the same is captured in
the innermost `k` scopes. -/
structure Matches (k : Nat) (c d : Scopes) : Prop where
  bare : d.bare = c.bare
  recent : d.inner.take k = c.inner.take k

/-- A name is introduced in the chain if it can be in the innermost scope. -/
theorem add_of_current {scope : Scope} (h : c.current.add name b = .ok scope) :
    c.add name b = .ok (c.setCurrent scope) := by
  rw [Scopes.add, h]
  rfl

/-- The captures of the innermost scopes depend on these alone. -/
theorem take_captureIn (dedup : Bool) (x : String) (b : Binding) (k : Nat) (inner : List Scope) :
    (captureIn dedup x b inner).take k = captureIn dedup x b (inner.take k) := by
  induction inner generalizing k with
  | nil => rw [List.take_nil, captureIn, List.take_nil]
  | cons scope outer ih =>
    cases k with
    | zero => rfl
    | succ k =>
      rw [List.take_succ_cons, captureIn, captureIn]
      cases scope.own? x with
      | some _ => rfl
      | none => exact congrArg _ (ih k)

namespace Matches

/-- At first nothing was opened since. -/
theorem of_bare (h : d.bare = c.bare) : Matches 0 c d := ⟨h, rfl⟩

/-- Captures are not asked what a name refers to. -/
theorem resolve (h : Matches k c d) (x : String) : d.resolve x = c.resolve x := by
  rw [← resolve_bare d, h.bare, resolve_bare]

/-- A scope is opened anew in both. -/
theorem push (h : Matches k c d) : Matches (k + 1) c.push d.push where
  bare := (congrArg Scopes.push h.bare :)
  recent := by
    show List.take (k + 1) ({} :: d.inner) = List.take (k + 1) ({} :: c.inner)
    rw [List.take_succ_cons, List.take_succ_cons, h.recent]

/-- A scope that was opened since is left in both. -/
theorem pop (h : Matches (k + 1) c d) : Matches k c.pop d.pop where
  bare := by rw [bare_pop, bare_pop, h.bare]
  recent := by
    have htail := congrArg (List.drop 1) h.recent
    rwa [List.drop_take, List.drop_take, List.drop_one, List.drop_one] at htail

/-- The innermost scope is the same, if it was opened since. -/
theorem current (h : Matches (k + 1) c d) : d.current = c.current := by
  have hhead := congrArg (List.headD · c.root) h.recent
  have hroot : d.root = c.root := (congrArg Scopes.root h.bare :)
  unfold Scopes.current
  rw [hroot]
  cases hd : d.inner <;> cases hc : c.inner <;> rw [hc, hd] at hhead <;> exact hhead

/-- **A name is found** in chains that match, and what it is found to be is the
same. -/
theorem get (h : Matches k c d) (hget : c.get x = some (b, e)) :
    ∃ e', d.get x = some (b, e') ∧ Matches k e e' := by
  have hdedup : d.dedup = c.dedup := (congrArg Scopes.dedup h.bare :)
  have hbare := (of_get_eq_some hget).2
  unfold Scopes.get at hget
  cases hresolve : c.resolve x with
  | none =>
    rw [hresolve] at hget
    cases hget
  | some b' =>
    rw [hresolve] at hget
    cases hget
    have hget' : d.get x = some (b, { d with inner := captureIn d.dedup x b d.inner }) := by
      unfold Scopes.get
      rw [h.resolve, hresolve]
    refine ⟨_, hget', ?_, ?_⟩
    · exact ((of_get_eq_some hget').2.trans h.bare).trans hbare.symm
    · rw [take_captureIn, take_captureIn, h.recent, hdedup]

/-- **A name is introduced** in chains that match. -/
theorem add (h : Matches k c d) (hadd : c.add name b = .ok e) :
    ∃ e', d.add name b = .ok e' ∧ Matches k e e' := by
  obtain ⟨scope, hscope, rfl⟩ := of_add_eq_ok hadd
  obtain ⟨topLevel, dedup, inner, root⟩ := c
  obtain ⟨topLevel', dedup', inner', root'⟩ := d
  obtain ⟨hbare, hrecent⟩ := h
  simp only [Scopes.bare, Scopes.mk.injEq] at hbare
  obtain ⟨rfl, rfl, hinner, rfl⟩ := hbare
  cases inner with
  | nil =>
    obtain rfl : inner' = [] := List.map_eq_nil_iff.mp hinner
    exact ⟨_, hadd, rfl, rfl⟩
  | cons innermost outer =>
    cases inner' with
    | nil => cases hinner
    | cons innermost' outer' =>
      obtain ⟨hfirst, houter⟩ := List.cons.inj hinner
      obtain ⟨scope', hscope', hbare⟩ := Scope.add_congr hfirst hscope
      refine ⟨_, add_of_current hscope', ?_, ?_⟩
      · simp only [Scopes.bare, setCurrent, List.map_cons, hbare, houter]
      · cases k with
        | zero => rfl
        | succ k =>
          -- the innermost scope was opened since, so it is the very same
          obtain ⟨rfl, hrest⟩ := List.cons.inj hrecent
          obtain rfl := Except.ok.inj (hscope.symm.trans hscope')
          exact congrArg (scope :: ·) hrest

end Matches

end Scopes

end Stagewise
