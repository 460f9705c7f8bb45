import Stagewise.Term.Fold

/-!
# What folding depends on

A term folds by the values of the declarations it refers to, and by nothing else
that is known (`Fold.term_congr`). Where it folds, each of them has a value or
is a built-in (`Fold.known_of_mem_globals`).
-/

namespace Stagewise.Fold

variable {known known' : Values} {x : String} {v : Value}

/-!
## Where folding looks

Folding looks up names in the table of values, and it comes by these names only
where they are in the term.
-/

mutual

/-- **A term folds alike by tables that agree** on the declarations it refers
to. -/
theorem term_congr (t : Term) (h : ∀ x ∈ t.globals, known.lookup x = known'.lookup x) :
    term known t = term known' t := by
  match t with
  | ⟨_, ty, node⟩ => exact node_congr ty node h
termination_by structural t

theorem node_congr (ty : Ty) (n : Term.Node)
    (h : ∀ x ∈ n.globals, known.lookup x = known'.lookup x) :
    node known ty n = node known' ty n := by
  match n with
  | .int _ | .float _ | .bool _ | .string _ | .value _ | .closure _ _ _ | .var _ (.lexical _) =>
    unfold node
    rfl
  | .var _ (.global name) =>
    unfold node
    exact h name (List.mem_singleton_self name)
  | .tuple elements =>
    unfold node
    rw [terms_congr elements h]
  | .list elements =>
    unfold node
    rw [terms_congr elements h]
  | .unary op operand =>
    unfold node
    rw [term_congr operand h]
  | .binary op left right =>
    unfold node
    rw [term_congr left fun x hx => h x (List.mem_append_left _ hx),
      term_congr right fun x hx => h x (List.mem_append_right _ hx)]
  | .call callee arguments =>
    unfold node
    rw [terms_congr arguments fun x hx => h x (List.mem_append_right _ hx)]
termination_by structural n

theorem terms_congr (ts : List Term)
    (h : ∀ x ∈ Term.globalsAll ts, known.lookup x = known'.lookup x) :
    terms known ts = terms known' ts := by
  match ts with
  | [] => unfold terms; rfl
  | t :: ts =>
    unfold terms
    rw [term_congr t fun x hx => h x (List.mem_append_left _ hx),
      terms_congr ts fun x hx => h x (List.mem_append_right _ hx)]
termination_by structural ts

end

mutual

/-- **A block folds alike by tables that agree** on the declarations it refers
to. -/
theorem block_congr (b : Term.Block) (h : ∀ x ∈ b.globals, known.lookup x = known'.lookup x) :
    block known b = block known' b := by
  match b with
  | ⟨_, _, stmts⟩ => exact sole_congr stmts h
termination_by structural b

theorem sole_congr (stmts : List Term.Stmt)
    (h : ∀ x ∈ Term.globalsStmts stmts, known.lookup x = known'.lookup x) :
    sole known stmts = sole known' stmts := by
  match stmts with
  | [] | _ :: _ :: _ => unfold sole; rfl
  | [s] => unfold sole; exact stmt_congr s h
termination_by structural stmts

theorem stmt_congr (s : Term.Stmt)
    (h : ∀ x ∈ Term.globalsStmts [s], known.lookup x = known'.lookup x) :
    stmt known s = stmt known' s := by
  match s with
  | .bind _ _ _ _ | .assign _ _ _ _ => unfold stmt; rfl
  | .eval e =>
    unfold stmt
    exact term_congr e fun x hx => h x (List.mem_append_left _ hx)
  | .branch _ _ condition yes no =>
    have hmem {x : String} (hx : x ∈ condition.globals ++ yes.globals ++ no.globals) :
        known.lookup x = known'.lookup x := h x (List.mem_append_left _ hx)
    unfold stmt
    rw [term_congr condition fun x hx => hmem (by simp [hx]),
      block_congr yes fun x hx => hmem (by simp [hx]),
      block_congr no fun x hx => hmem (by simp [hx])]
termination_by structural s

end

/-!
## What is known where folding succeeds

Folding skips nothing, so a name that is not known keeps it from succeeding
wherever the name is. Built-ins are different, as they may be called without
having a value.
-/

/-- **A declaration that can be folded with**: it has a value, or is a
built-in. -/
def Known (known : Values) (x : String) : Prop :=
  (known.lookup x).isSome = true ∨ ∃ b : Builtin, b.name = x

theorem known_of_builtin? {callee : Term} {b : Builtin} (h : builtin? callee = some b) :
    ∀ x ∈ callee.globals, Known known x := by
  obtain ⟨span, ty, n⟩ := callee
  cases n with
  | var name binding =>
    cases binding with
    | lexical l => cases h
    | global y =>
      intro x hx
      obtain rfl := List.mem_singleton.mp hx
      have hname : Builtin.ofName? x = some b := h
      exact .inr ⟨b, by simpa using List.find?_some hname⟩
  | _ => cases h

mutual

/-- **What a term that folds refers to is known.** -/
theorem known_of_mem_globals (t : Term) (v : Value) (h : term known t = some v) :
    ∀ x ∈ t.globals, Known known x := by
  match t with
  | ⟨_, ty, n⟩ => exact node_known ty n v h
termination_by structural t

theorem node_known (ty : Ty) (n : Term.Node) (v : Value) (h : node known ty n = some v) :
    ∀ x ∈ n.globals, Known known x := by
  intro x hx
  match n with
  | .int _ | .float _ | .bool _ | .string _ | .value _ | .var _ (.lexical _) => cases hx
  | .closure _ _ _ =>
    unfold node at h
    cases h
  | .var _ (.global name) =>
    obtain rfl := List.mem_singleton.mp hx
    exact .inl (Option.isSome_of_eq_some h)
  | .tuple elements =>
    unfold node at h
    obtain ⟨vs, hvs, -⟩ := Option.bind_eq_some_iff.mp h
    exact terms_known elements vs hvs x hx
  | .list elements =>
    unfold node at h
    obtain ⟨vs, hvs, -⟩ := Option.map_eq_some_iff.mp h
    exact terms_known elements vs hvs x hx
  | .unary op operand =>
    unfold node at h
    obtain ⟨w, hw, -⟩ := Option.bind_eq_some_iff.mp h
    exact known_of_mem_globals operand w hw x hx
  | .binary op left right =>
    unfold node at h
    obtain ⟨u, hu, h⟩ := Option.bind_eq_some_iff.mp h
    obtain ⟨w, hw, -⟩ := Option.bind_eq_some_iff.mp h
    obtain hx | hx := List.mem_append.mp hx
    · exact known_of_mem_globals left u hu x hx
    · exact known_of_mem_globals right w hw x hx
  | .call callee arguments =>
    unfold node at h
    obtain ⟨b, hb, h⟩ := Option.bind_eq_some_iff.mp h
    obtain ⟨vs, hvs, -⟩ := Option.bind_eq_some_iff.mp h
    obtain hx | hx := List.mem_append.mp hx
    · exact known_of_builtin? hb x hx
    · exact terms_known arguments vs hvs x hx
termination_by structural n

theorem terms_known (ts : List Term) (vs : List Value) (h : terms known ts = some vs) :
    ∀ x ∈ Term.globalsAll ts, Known known x := by
  intro x hx
  match ts with
  | [] => cases hx
  | t :: ts =>
    unfold terms at h
    obtain ⟨u, hu, h⟩ := Option.bind_eq_some_iff.mp h
    obtain ⟨ws, hws, -⟩ := Option.bind_eq_some_iff.mp h
    obtain hx | hx := List.mem_append.mp hx
    · exact known_of_mem_globals t u hu x hx
    · exact terms_known ts ws hws x hx
termination_by structural ts

end

end Stagewise.Fold
