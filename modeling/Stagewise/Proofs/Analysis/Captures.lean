import Stagewise.Proofs.Analysis.Lookups
import Stagewise.Proofs.Analysis.Soundness
import Stagewise.Proofs.Scope.Visits
import Stagewise.Proofs.Source.Parts
import Stagewise.Proofs.Term.Loose

/-!
# What closures capture

A closure lists the outer locals that its body uses. Where the body has nothing
to expand, the list can be told from the source: it is made of the names that
are free in the body, wherever they are mentioned, and that refer to locals
where the closure is written. Each is listed once, in the order in which they
are first met.

The argument is about scopes. Checking a tree looks up the names that are free
in it, one after the other, and does nothing else to the scopes around
(`Scopes.visit`); whatever happens further in, in the scopes of blocks and of
other closures, is gone when those are left. The scope of a closure has then
captured the free names of the body.

A closure inside another closure captures what is free in it as well. If that is
not bound in between then it is free in the outer closure too, and so every
closure on the way **passes it on** (`Term.Closure.PassesOn`).
-/

namespace Stagewise

/-! ## Closures in a term -/

/-- **A closure in a term.** -/
structure Term.Closure where
  /-- The parameters and variables around it, as far as they belong to the
  term. -/
  bound : List String
  /-- Its parameters. -/
  params : List String
  /-- What it captures. -/
  captures : List String
  /-- Its body. -/
  body : Term.Block

namespace Term

mutual

/-- **The closures in a term**, where `bound` are the names bound around it. -/
def closures (bound : List String) : Term → List Closure
  | ⟨_, _, node⟩ => node.closures bound

/-- The closures in a node. -/
def Node.closures (bound : List String) : Node → List Closure
  | .int _ | .float _ | .bool _ | .string _ | .value _ | .var _ _ => []
  | .call callee arguments => callee.closures bound ++ closuresAll bound arguments
  | .tuple elements | .list elements => closuresAll bound elements
  | .unary _ operand => operand.closures bound
  | .binary _ left right => left.closures bound ++ right.closures bound
  | .closure params captures body =>
    ⟨bound, params.map (·.1), captures, body⟩ :: body.closures (params.map (·.1) ++ bound)

/-- The closures in several terms. -/
def closuresAll (bound : List String) : List Term → List Closure
  | [] => []
  | t :: ts => t.closures bound ++ closuresAll bound ts

/-- The closures in a block. -/
def Block.closures (bound : List String) : Block → List Closure
  | ⟨_, _, stmts⟩ => closuresStmts bound stmts

/-- The closures in a sequence of statements. -/
def closuresStmts (bound : List String) : List Stmt → List Closure
  | [] => []
  | stmt :: rest => stmt.closures bound ++ closuresStmts (stmt.locals ++ bound) rest

/-- The closures in a statement. -/
def Stmt.closures (bound : List String) : Stmt → List Closure
  | .bind _ _ _ body | .assign _ _ _ body => body.closures bound
  | .branch _ _ condition yes no =>
    condition.closures bound ++ yes.closures bound ++ no.closures bound
  | .eval e => e.closures bound

end

/-- **A closure passes on** what closures inside it capture: it captures that
itself, unless it is bound in between. -/
def Closure.PassesOn (k : Closure) : Prop :=
  ∀ k' ∈ k.body.closures k.params, ∀ x ∈ k'.captures, x ∉ k'.bound → x ∈ k.captures

/-- **Closures reach for names**: what they capture and is not bound around them
is among the names, and refers to locals. They pass on what closures inside them
capture. -/
def Reach (E : Env) (names : List String) (closures : List String → List Closure) : Prop :=
  ∀ bound, ∀ k ∈ closures bound, bound ⊆ k.bound ∧ k.PassesOn ∧
    ∀ x ∈ k.captures, x ∉ k.bound → x ∈ names ∧ E.IsLocal x

namespace Reach

variable {E : Env} {names names' : List String} {closures closures' : List String → List Closure}

theorem nil : Reach E names fun _ => [] := fun _ _ hk => absurd hk List.not_mem_nil

/-- **What one part of a tree reaches for and what another does** is what both
together reach for. The order matters, as names are looked up in the order in
which the parts stand. -/
theorem append (h : Reach E names closures) (h' : Reach E names' closures') :
    Reach E (names ++ names') fun bound => closures bound ++ closures' bound := by
  intro bound k hk
  obtain hk | hk := List.mem_append.mp hk
  · obtain ⟨hbound, hpasses, hreach⟩ := h bound k hk
    exact ⟨hbound, hpasses, fun x hx hfree =>
      (hreach x hx hfree).imp_left (List.mem_append_left _)⟩
  · obtain ⟨hbound, hpasses, hreach⟩ := h' bound k hk
    exact ⟨hbound, hpasses, fun x hx hfree =>
      (hreach x hx hfree).imp_left (List.mem_append_right _)⟩

/-- There is more than the closures reach for. -/
theorem append_left (h : Reach E names' closures) : Reach E (names ++ names') closures :=
  (nil : Reach E names fun _ => []).append h

/-- Closures where some names are bound that mean something else outside. -/
theorem within {E' : Env} {locals : List String} (h : Reach E' names closures)
    (hE : ∀ x, x ∉ locals → E' x = E x) :
    Reach E (names.filter (· ∉ locals)) fun bound => closures (locals ++ bound) := by
  intro bound k hk
  obtain ⟨hbound, hpasses, hreach⟩ := h _ k hk
  refine ⟨fun x hx => hbound (List.mem_append_right _ hx), hpasses, fun x hx hfree => ?_⟩
  have hlocals : x ∉ locals := fun hx => hfree (hbound (List.mem_append_left _ hx))
  obtain ⟨hname, l, hl⟩ := hreach x hx hfree
  exact ⟨List.mem_filter.mpr ⟨hname, decide_eq_true hlocals⟩, l, (hE x hlocals).symm.trans hl⟩

end Reach

end Term

namespace Analysis

open Source (Expr Stmt Param Invocation Place freeNames)
open Term (Reach)

variable {β α γ μ : Type} {ctx : Context β} {s t : State β}

/-!
## Steps that succeed

What a closure captures is a question about steps that succeed, since nothing
comes of the others. So the rules of this section drop every way to fail. Each
of them is what `Follows` says of the same operation, with the state where it
ends in place of the course that leads there.
-/

/-- **If a step succeeds**, then its result has a property. -/
def IfOk (R : State β → α → Prop) : EStateM.Result Halt (State β) α → Prop
  | .ok a t => R t a
  | .error _ _ => True

namespace IfOk

variable {R : State β → α → Prop} {R' : State β → γ → Prop}

theorem always {r : EStateM.Result Halt (State β) α} : IfOk (fun _ _ => True) r := by
  rcases r with ⟨a, t⟩ | ⟨e, t⟩ <;> trivial

theorem of_proceeds {r : EStateM.Result Halt (State β) α} (h : Proceeds ctx s R r) : IfOk R r := by
  rcases r with ⟨a, t⟩ | ⟨e, t⟩
  · exact h.2
  · trivial

theorem imp {R' : State β → α → Prop} {r : EStateM.Result Halt (State β) α} (h : IfOk R r)
    (hR : ∀ t a, R t a → R' t a) : IfOk R' r := by
  rcases r with ⟨a, t⟩ | ⟨e, t⟩
  · exact hR t a h
  · trivial

/-- What there is to say of a step that has succeeded. -/
theorem of_eq_ok {r : EStateM.Result Halt (State β) α} {a : α} (h : IfOk R r) (hr : r = .ok a t) :
    R t a := by
  subst hr
  exact h

/-- Two properties of the same result may be shown apart. -/
theorem and {R' : State β → α → Prop} {r : EStateM.Result Halt (State β) α} (h : IfOk R r)
    (h' : IfOk R' r) : IfOk (fun t a => R t a ∧ R' t a) r := by
  rcases r with ⟨a, t⟩ | ⟨e, t⟩
  · exact ⟨h, h'⟩
  · trivial

/-- In a sequence, the second step begins where the first has ended. -/
theorem bind {step : Check β α} {next : α → Check β γ} (h : IfOk R (step s))
    (hnext : ∀ a t, R t a → IfOk R' (next a t)) : IfOk R' ((step >>= next) s) := by
  show IfOk R' (EStateM.bind step next s)
  unfold EStateM.bind
  generalize step s = r at h
  rcases r with ⟨a, t⟩ | ⟨e, t⟩
  · exact hnext a t h
  · trivial

theorem get_bind {next : State β → Check β α} (h : IfOk R (next s s)) :
    IfOk R ((get >>= next) s) := h

theorem set_bind {next : PUnit → Check β α} (h : IfOk R (next ⟨⟩ t)) :
    IfOk R ((set t >>= next) s) := h

theorem pure {a : α} (h : R s a) : IfOk R ((pure a : Check β α) s) := h

theorem report (diagnostic : Diagnostic) : IfOk R ((report diagnostic : Check β α) s) := trivial

theorem report_bind (diagnostic : Diagnostic) (next : γ → Check β α) :
    IfOk R ((Analysis.report diagnostic >>= next) s) := trivial

/-- A test that has to come out false. -/
theorem reportIf {P : Prop} [Decidable P] {diagnostic : Diagnostic} {next : Unit → Check β α}
    (h : ¬P → IfOk R (next () s)) :
    IfOk R ((if P then Analysis.report diagnostic >>= next else next ()) s) := by
  split
  · exact report_bind diagnostic next
  · exact h ‹_›

theorem stop {f : Fatal} : IfOk R ((stop f : Check β α) s) := trivial

/-- Where a type was expected, all that matters is that the analysis has gone
on. -/
theorem expect_bind {site : Site} {expected found : Ty} {span : Span} {next : Unit → Check β α}
    (h : IfOk R (next () s)) : IfOk R ((Analysis.expect site expected found span >>= next) s) := by
  unfold Analysis.expect
  split
  · exact h
  · exact report_bind _ _

/-- A result that was found in a scope of its own is seen from outside of it. -/
theorem inScope {step : Check β α}
    (h : IfOk (fun t a => R { t with scopes := t.scopes.pop } a)
      (step { s with scopes := s.scopes.push })) : IfOk R (inScope step s) := by
  unfold Analysis.inScope
  generalize step { s with scopes := s.scopes.push } = r at h
  rcases r with ⟨a, t⟩ | ⟨e, t⟩
  · exact h
  · trivial

end IfOk

/-!
## Steps that look up names

A scope counts what is looked up in it, and passes it on to the scopes around.
To check a tree is therefore to **visit** names, and the names are those that
are free in the tree. What is visited inside a scope that is gone by then has
been filtered: a name the scope has introduced itself is not looked for further
out.
-/

/-- **A step looks up names**, and does nothing else to the scopes. -/
def Visits (s : State β) (names : List String) (t : State β) : Prop :=
  t.scopes = s.scopes.visit names

/-- One visit after another is a visit of all the names. -/
theorem Visits.trans {u : State β} {xs ys : List String} (h : Visits s xs t) (h' : Visits t ys u) :
    Visits s (xs ++ ys) u := by
  rw [Visits, Scopes.visit_append, ← show t.scopes = _ from h]
  exact h'

/-- A visit does not change what names refer to. This is why the order of visits
is of no account for anything but captures. -/
theorem Visits.resolve {xs : List String} (h : Visits s xs t) :
    t.scopes.resolve = s.scopes.resolve := by
  rw [show t.scopes = _ from h, Scopes.resolve_visit]

theorem Visits.dedup {xs : List String} (h : Visits s xs t) : t.scopes.dedup = s.scopes.dedup := by
  rw [show t.scopes = _ from h, Scopes.dedup_visit]

/-- **A name is looked up**, and the type that is asked for may take any number
of other declarations. They are settled in places of their own, and leave the
scopes as they were. -/
theorem typeOf_visits {demand : String → Check β Ty} (h : Demands ctx demand) (name : Name) :
    IfOk (fun t _ => Visits s [name.text] t) (typeOf demand name s) := by
  unfold typeOf
  refine .get_bind ?_
  cases hget : s.scopes.get name.text with
  | none => exact .report _
  | some found =>
    obtain ⟨binding, scopes⟩ := found
    have hscopes : scopes = s.scopes.visit [name.text] := by
      rw [Scopes.visit_cons, Scopes.visit_nil, Scopes.after, hget]
      rfl
    cases binding with
    | lexical l => exact hscopes
    | global x =>
      refine .set_bind (.bind (.of_proceeds (h _ x)) ?_)
      rintro ty t ⟨ht, -⟩
      exact .pure (ht.trans hscopes)

/-- **A step that checks a tree** looks up names, and closures that come of it
reach for those. -/
structure Looks (s : State β) (names : List String) (closures : List String → List Term.Closure)
    (t : State β) : Prop where
  visits : Visits s names t
  reach : Reach s.scopes.resolve names closures

namespace Looks

variable {u : State β} {xs ys : List String} {closures closures' : List String → List Term.Closure}

theorem nil : Looks s [] (fun _ => []) s := ⟨rfl, .nil⟩

/-- A tree after something that nothing comes of. -/
theorem after (h : Looks t ys closures u) (hst : Visits s xs t) : Looks s (xs ++ ys) closures u :=
  ⟨hst.trans h.visits, (hst.resolve ▸ h.reach).append_left⟩

/-- Two trees, one after the other, are two visits, and the closures of both. -/
theorem append (h : Looks s xs closures t) (h' : Looks t ys closures' u) :
    Looks s (xs ++ ys) (fun bound => closures bound ++ closures' bound) u :=
  ⟨h.visits.trans h'.visits, h.reach.append (h.visits.resolve ▸ h'.reach)⟩

end Looks

/-- **Statements look up names** in a scope that is open, and introduce more.
Seen from the scopes around, only those names are looked up that the scope has
not introduced before. -/
structure LooksIn (c : Scopes) (locals : List String) (s : State β) (names : List String)
    (closures : List String → List Term.Closure) (t : State β) : Prop where
  opened : ∃ locals', Scopes.Opened (c.visit (names.filter (· ∉ locals))) locals' t.scopes
  reach : Reach s.scopes.resolve names closures

/-- A statement, what it introduces, and the statements after it. -/
theorem Looks.cons {u v : State β} {c : Scopes} {xs ys locals more : List String}
    {closures closures' : List String → List Term.Closure} (h : Looks s xs closures t)
    (hrest : LooksIn (c.visit (xs.filter (· ∉ locals))) (more ++ locals) u ys closures' v)
    (hresolve : ∀ x, x ∉ more → u.scopes.resolve x = t.scopes.resolve x) :
    LooksIn c locals s (xs ++ ys.filter (· ∉ more))
      (fun bound => closures bound ++ closures' (more ++ bound)) v := by
  obtain ⟨⟨locals', hopened⟩, hreach⟩ := hrest
  refine ⟨⟨locals', ?_⟩, h.reach.append (hreach.within (h.visits.resolve ▸ hresolve))⟩
  have hnames : (ys.filter (· ∉ more)).filter (· ∉ locals) = ys.filter (· ∉ more ++ locals) := by
    simp [List.filter_filter, Bool.and_comm]
  rw [List.filter_append, Scopes.visit_append, hnames]
  exact hopened

/-- An ascription is checked, and what it stands for is found out without the
scopes. -/
theorem ascribed_visits {names : List String} {step : Check β Term} {span : Span}
    (hs : s.scopes.dedup = true)
    (h : ∀ t : State β, t.scopes.dedup = true →
      IfOk (fun u e => Looks t names (fun bound => e.closures bound) u) (step t)) :
    IfOk (fun t _ => Visits s names t) (ascribed ctx span step s) := by
  have hstep := h { s with inAscription := true } hs
  have hin : IfOk (fun t _ => Visits s names t) (inAscription step s) := by
    unfold inAscription
    generalize step { s with inAscription := true } = r at hstep
    rcases r with ⟨a, t⟩ | ⟨e, t⟩
    · exact hstep.visits
    · trivial
  unfold ascribed
  refine hin.bind fun e t ht => .expect_bind ?_
  refine .bind (.of_proceeds (folded_proceeds e)) ?_
  rintro v u ⟨hu, -⟩
  have hvisits : Visits s names u := hu.trans ht
  cases v with
  | some v =>
    cases v with
    | type ty => exact hvisits
    | _ => exact .stop
  | none =>
    refine .bind (.of_proceeds (evaluate_proceeds e)) ?_
    rintro v w ⟨rfl, -⟩
    cases v with
    | type ty => exact hvisits
    | _ => exact .stop

/-! ## Locals -/

/-- A local that was introduced is in the scopes. -/
theorem introduce_ifOk (kind : Local.Kind) (name : Name) (ty : Ty) :
    IfOk (fun t _ => s.scopes.add name (.lexical ⟨name, kind, ty⟩) = .ok t.scopes)
      (introduce kind name ty s) := by
  unfold introduce
  refine .get_bind ?_
  cases hadd : s.scopes.add name (.lexical ⟨name, kind, ty⟩) with
  | ok scopes => rfl
  | error diagnostic => exact .report _

/-- **Parameters are introduced** in a scope of their own. -/
theorem introduceParams_ifOk {c : Scopes} {names : List String} (params : List (Name × Ty))
    (h : Scopes.Opened c names s.scopes) :
    IfOk (fun t _ => Scopes.Opened c (params.map (·.1.text) ++ names) t.scopes ∧
        t.scopes.current.captures = s.scopes.current.captures ∧ t.scopes.dedup = s.scopes.dedup)
      (introduceParams params s) := by
  unfold introduceParams
  induction params generalizing s names with
  | nil => exact .pure ⟨h, rfl, rfl⟩
  | cons p params ih =>
    rw [List.forM_eq_forM, List.forM_cons]
    refine .bind (introduce_ifOk .parameter p.1 p.2) fun _ t hadd => ?_
    obtain ⟨hopened, hcaptures, hdedup⟩ := h.add hadd
    refine (ih hopened).imp ?_
    rintro u - ⟨hopened', hcaptures', hdedup'⟩
    refine ⟨hopened'.congr fun x => ?_, hcaptures'.trans hcaptures, hdedup'.trans hdedup⟩
    simp only [List.map_cons, List.cons_append, List.mem_cons, List.mem_append]
    tauto

/-- **What a closure captures** of the names that are free in its body. -/
def outerLocals (E : Env) (names : List String) : List String :=
  names.eraseDups.filter fun x => (E x).any Binding.isLexical

/-- To be captured is to be mentioned and to be a local of the place. -/
theorem mem_outerLocals {E : Env} {names : List String} {x : String} :
    x ∈ outerLocals E names ↔ x ∈ names ∧ E.IsLocal x := by
  rw [outerLocals, List.mem_filter, List.mem_eraseDups]
  refine and_congr_right fun _ => ?_
  unfold Env.IsLocal
  rcases E x with - | ⟨g | l⟩ <;> simp [Binding.isLexical]

/-- The names of the captures that are of locals. -/
theorem map_lexicalCaptures {scope : Scope} {E : Env} {names : List String}
    (h : scope.captures = names.filterMap fun x => (E x).map (⟨x, ·⟩)) :
    scope.lexicalCaptures.map (·.name) = names.filter fun x => (E x).any Binding.isLexical := by
  rw [Scope.lexicalCaptures, h, List.filter_filterMap, List.map_filterMap,
    ← List.filterMap_eq_filter]
  refine List.filterMap_congr fun x _ => ?_
  cases hx : E x with
  | none => simp [Option.guard, hx]
  | some b => cases hb : b.isLexical <;> simp [Option.filter, Option.guard, hx, hb]

/-- **A step in the scope of a closure.** -/
theorem inClosure_looks {step : Check β Term.Block} {names : List String}
    (hdedup : s.scopes.dedup = true)
    (hstep : ∀ v : State β, v.scopes.dedup = true →
      IfOk (fun t b => Looks v names (fun bound => b.closures bound) t) (step v))
    (params : List (Name × Ty)) :
    IfOk (fun t out =>
        Visits s (names.filter (· ∉ params.map (·.1.text))) t ∧
          out.2 = outerLocals s.scopes.resolve (names.filter (· ∉ params.map (·.1.text))) ∧
          Reach s.scopes.resolve (names.filter (· ∉ params.map (·.1.text))) fun bound =>
            out.1.closures (params.map (·.1.text) ++ bound))
      (inScope (do
        introduceParams params
        let body ← step
        return (body, ← capturedNames)) s) := by
  refine .inScope ?_
  refine .bind (introduceParams_ifOk params (Scopes.Opened.push s.scopes)) ?_
  rintro - v ⟨hopened, hcaptures, hv⟩
  rw [List.append_nil] at hopened
  refine (hstep v (hv.trans hdedup)).bind fun body t ht => ?_
  have hscopes : t.scopes = v.scopes.visit names := ht.visits
  have hresolve (x : String) (hx : x ∉ params.map (·.1.text)) :
      v.scopes.resolve x = s.scopes.resolve x := hopened.resolve_eq hx
  refine .bind (R := fun u out => u = t ∧ out = t.scopes.current.lexicalCaptures.map (·.name))
    ⟨rfl, rfl⟩ ?_
  rintro _ _ ⟨rfl, rfl⟩
  refine .pure ⟨?_, ?_, ht.reach.within hresolve⟩
  · rw [Visits, hscopes]
    exact (hopened.visit names).pop
  · refine map_lexicalCaptures ?_
    rw [hscopes]
    exact hopened.captures_visit (hv.trans hdedup) hcaptures names

/-- **A closure reaches** for what is free in its body, and passes on what
closures inside it capture. -/
theorem closure_looks (span : Span) (ty : Ty) {params : List (Name × Ty)} {body : Term.Block}
    {names : List String} (hvisits : Visits s (names.filter (· ∉ params.map (·.1.text))) t)
    (hreach : Reach s.scopes.resolve (names.filter (· ∉ params.map (·.1.text))) fun bound =>
      body.closures (params.map (·.1.text) ++ bound)) :
    Looks s (names.filter (· ∉ params.map (·.1.text)))
      (fun bound => Term.closures bound ⟨span, ty, .closure
        (params.map fun (name, ty) => (name.text, ty))
        (outerLocals s.scopes.resolve (names.filter (· ∉ params.map (·.1.text)))) body⟩) t := by
  refine ⟨hvisits, fun bound k hk => ?_⟩
  have hparams : (params.map fun (name, ty) => (name.text, ty)).map (·.1) =
      params.map (·.1.text) := by
    rw [List.map_map]
    rfl
  rw [Term.closures, Term.Node.closures, hparams] at hk
  obtain rfl | hk := List.mem_cons.mp hk
  · refine ⟨fun _ hx => hx, fun k hk x hx hfree => ?_, fun x hx _ => mem_outerLocals.mp hx⟩
    rw [← List.append_nil (params.map _)] at hk
    exact mem_outerLocals.mpr ((hreach [] k hk).2.2 x hx hfree)
  · exact hreach bound k hk

/-!
## Trees

Source trees are taken apart by `parts`, which lists all the names in a tree
with the place where each stands. The free names are those that no place on the
way binds. How they are put together from the parts of a tree is said first, for
the three cases where something is bound.
-/

theorem freeNames_of_bound {p : Place} (hp : p.bound = []) (e : Expr μ) :
    freeNames (e.parts p) = freeNames (e.parts {}) := by
  rw [e.freeNames_parts p, hp]
  exact List.filter_eq_self.mpr (by simp)

/-- What the body of a block or closure binds is not free outside. -/
theorem freeNames_body (b : Source.Block μ) (locals : List String) :
    freeNames (b.parts (Place.body {} locals)) =
      (freeNames (b.parts {})).filter (· ∉ locals) := by
  rw [b.freeNames_parts, Place.bound_body, List.append_nil]

/-- What a statement introduces is bound in the statements after it, and not in
itself. -/
theorem freeNames_cons (stmt : Stmt μ) (rest : List (Stmt μ)) :
    freeNames (Source.partsStmts {} (stmt :: rest)) = freeNames (stmt.parts {}) ++
      (freeNames (Source.partsStmts {} rest)).filter (· ∉ stmt.locals) := by
  rw [Source.partsStmts, Source.freeNames_append, stmt.freeNames_parts,
    Source.freeNames_partsStmts, Place.bound_body, Place.bound_body, List.append_nil,
    List.append_nil, List.filter_eq_self.mpr (by simp)]

theorem stmtsPlain_cons (stmt : Stmt μ) (rest : List (Stmt μ)) :
    Source.stmtsPlain (stmt :: rest) = (Source.stmtsPlain [stmt] && Source.stmtsPlain rest) := by
  cases stmt <;> simp [Source.stmtsPlain]

section

variable {demand : String → Check β Ty} {expand : Span → μ → Option Ty → Check β Term}

/-- Parameters keep their names. -/
theorem inferParams_names (ps : List (Param (Expr μ))) :
    IfOk (fun _ out => out.map (·.1.text) = ps.map (·.name.text))
      (inferParams ctx demand expand ps s) := by
  induction ps generalizing s with
  | nil => unfold inferParams; exact .pure rfl
  | cons p ps ih =>
    unfold inferParams
    refine .bind .always fun ty t _ => .bind ih fun out u hu => ?_
    exact .pure (congrArg (p.name.text :: ·) hu)

mutual

/-- **Checking an expression** looks up the names that are free in it. -/
theorem infer_looks {s : State β} (h : Demands ctx demand) (hs : s.scopes.dedup = true)
    (e : Expr μ) (hplain : e.isPlain = true) (hint : Option Ty) :
    IfOk (fun t out => Looks s (freeNames (e.parts {})) (fun bound => out.closures bound) t)
      (infer ctx demand expand e hint s) := by
  cases e with
  | int span n => unfold infer; exact .pure .nil
  | float span x => unfold infer; exact .pure .nil
  | bool span b => unfold infer; exact .pure .nil
  | string span x => unfold infer; exact .pure .nil
  | typeLiteral span ty => unfold infer; exact .pure .nil
  | var name =>
    unfold infer
    refine .bind (typeOf_visits h name) fun out t ht => .pure ⟨ht, .nil⟩
  | call span callee arguments =>
    rw [Expr.isPlain, Bool.and_eq_true] at hplain
    unfold infer
    refine .bind (infer_looks h hs callee hplain.1 none) fun callee t ht => ?_
    cases callee.ty with
    | fn argument result =>
      refine .reportIf fun hlength => ?_
      refine .bind (inferArguments_looks h (ht.visits.dedup.trans hs) arguments hplain.2
        (not_not.mp hlength).symm) fun arguments u hu => ?_
      rw [Expr.parts, Source.freeNames_append]
      exact .pure (ht.append hu)
    | _ => exact .report _
  | tuple span elements =>
    unfold infer
    refine .bind (inferEach_looks h hs elements hplain (length_elementHints _ hint).symm)
      fun elements t ht => ?_
    exact .pure ht
  | list span elements =>
    unfold infer
    refine .bind (inferElements_looks h hs elements hplain (elementTy hint)) fun out t ht => ?_
    exact .pure ht
  | unary span op operand =>
    unfold infer
    refine .bind (infer_looks h hs operand hplain none) fun operand t ht => ?_
    cases unaryTy op operand.ty with
    | some ty => exact .pure ht
    | none => exact .report _
  | binary span op left right =>
    rw [Expr.isPlain, Bool.and_eq_true] at hplain
    unfold infer
    refine .bind (infer_looks h hs left hplain.1 none) fun left t ht => ?_
    refine .bind (infer_looks h (ht.visits.dedup.trans hs) right hplain.2 (some left.ty))
      fun right u hu => ?_
    cases binaryTy op left.ty right.ty with
    | some ty =>
      rw [Expr.parts, Source.freeNames_append]
      exact .pure (ht.append hu)
    | none => exact .report _
  | expand span m => cases hplain
  | closure span params result body =>
    rw [Expr.isPlain, Bool.and_eq_true, Bool.and_eq_true] at hplain
    unfold infer
    refine .bind ((inferParams_looks h hs params hplain.1.1).and (inferParams_names params)) ?_
    rintro params' t ⟨ht, hnames⟩
    refine .bind (ascribed_visits (ht.dedup.trans hs) fun _ hu =>
      infer_looks h hu result hplain.1.2 _) fun result' u hu => ?_
    refine .bind (inClosure_looks (hu.dedup.trans (ht.dedup.trans hs))
      (fun v hv => checkBlock_looks h hv body hplain.2 _) params') ?_
    rintro ⟨body', captures⟩ v ⟨hv, rfl, hreach⟩
    refine .expect_bind (.pure ?_)
    rw [Expr.parts, Source.freeNames_append, Source.freeNames_append, Source.freeNames_ascription,
      freeNames_of_bound rfl, freeNames_body, ← hnames, List.append_assoc]
    exact ((closure_looks span _ hv hreach).after hu).after ht
termination_by structural e

/-- The arguments of a call look up their names from left to right. -/
theorem inferArguments_looks {s : State β} (h : Demands ctx demand) (hs : s.scopes.dedup = true)
    (es : List (Expr μ)) (hplain : Source.allPlain es = true) {ts : List Ty}
    (hlength : es.length = ts.length) :
    IfOk (fun t out => Looks s (freeNames (Source.partsAll {} es))
        (fun bound => Term.closuresAll bound out) t)
      (inferArguments ctx demand expand es ts s) := by
  match es, ts with
  | e :: es, ty :: ts =>
    rw [Source.allPlain, Bool.and_eq_true] at hplain
    unfold inferArguments
    refine .bind (infer_looks h hs e hplain.1 (some ty)) fun e' t ht => .expect_bind ?_
    refine .bind (inferArguments_looks h (ht.visits.dedup.trans hs) es hplain.2
      (Nat.succ.inj hlength)) fun out u hu => ?_
    rw [Source.partsAll, Source.freeNames_append]
    exact .pure (ht.append hu)
  | [], [] => unfold inferArguments; exact .pure .nil
termination_by structural es

theorem inferEach_looks {s : State β} (h : Demands ctx demand) (hs : s.scopes.dedup = true)
    (es : List (Expr μ)) (hplain : Source.allPlain es = true) {hints : List (Option Ty)}
    (hlength : es.length = hints.length) :
    IfOk (fun t out => Looks s (freeNames (Source.partsAll {} es))
        (fun bound => Term.closuresAll bound out) t)
      (inferEach ctx demand expand es hints s) := by
  match es, hints with
  | e :: es, hint :: hints =>
    rw [Source.allPlain, Bool.and_eq_true] at hplain
    unfold inferEach
    refine .bind (infer_looks h hs e hplain.1 hint) fun e' t ht => ?_
    refine .bind (inferEach_looks h (ht.visits.dedup.trans hs) es hplain.2
      (Nat.succ.inj hlength)) fun out u hu => ?_
    rw [Source.partsAll, Source.freeNames_append]
    exact .pure (ht.append hu)
  | [], [] => unfold inferEach; exact .pure .nil
termination_by structural es

/-- So do the elements of a list. -/
theorem inferElements_looks {s : State β} (h : Demands ctx demand) (hs : s.scopes.dedup = true)
    (es : List (Expr μ)) (hplain : Source.allPlain es = true) (ty : Option Ty) :
    IfOk (fun t out => Looks s (freeNames (Source.partsAll {} es))
        (fun bound => Term.closuresAll bound out.2) t)
      (inferElements ctx demand expand es ty s) := by
  match es, ty with
  | [], ty => unfold inferElements; exact .pure .nil
  | e :: es, none =>
    rw [Source.allPlain, Bool.and_eq_true] at hplain
    unfold inferElements
    refine .bind (infer_looks h hs e hplain.1 none) fun e' t ht => ?_
    refine .bind (inferElements_looks h (ht.visits.dedup.trans hs) es hplain.2 (some e'.ty))
      fun out u hu => ?_
    rw [Source.partsAll, Source.freeNames_append]
    exact .pure (ht.append hu)
  | e :: es, some ty =>
    rw [Source.allPlain, Bool.and_eq_true] at hplain
    unfold inferElements
    refine .bind (infer_looks h hs e hplain.1 (some ty)) fun e' t ht => .expect_bind ?_
    refine .bind (inferElements_looks h (ht.visits.dedup.trans hs) es hplain.2 (some ty))
      fun out u hu => ?_
    rw [Source.partsAll, Source.freeNames_append]
    exact .pure (ht.append hu)
termination_by structural es

/-- Parameters are ascribed before the closure's own scope is open, so they
visit the scopes around and no closure comes of them. -/
theorem inferParams_looks {s : State β} (h : Demands ctx demand) (hs : s.scopes.dedup = true)
    (ps : List (Param (Expr μ))) (hplain : Source.paramsPlain ps = true) :
    IfOk (fun t _ => Visits s (freeNames (Source.partsParams {} ps)) t)
      (inferParams ctx demand expand ps s) := by
  match ps with
  | [] => unfold inferParams; exact .pure rfl
  | ⟨name, a⟩ :: ps =>
    rw [Source.paramsPlain, Bool.and_eq_true] at hplain
    unfold inferParams
    refine .bind (ascribed_visits hs fun _ hu => infer_looks h hu a hplain.1 _)
      fun ty t ht => ?_
    refine .bind (inferParams_looks h (ht.dedup.trans hs) ps hplain.2) fun out u hu => ?_
    rw [Source.partsParams, Source.freeNames_append, Source.freeNames_ascription,
      freeNames_of_bound rfl]
    exact .pure (ht.trans hu)
termination_by structural ps

/-- **A block opens a scope.** When that is left, what is visited around it is
what was not introduced in it. -/
theorem checkBlock_looks {s : State β} (h : Demands ctx demand) (hs : s.scopes.dedup = true)
    (b : Source.Block μ) (hplain : b.isPlain = true) (hint : Option Ty) :
    IfOk (fun t out => Looks s (freeNames (b.parts {})) (fun bound => out.closures bound) t)
      (checkBlock ctx demand expand b hint s) := by
  match b with
  | ⟨span, stmts⟩ =>
    have hpush := Scopes.Opened.push s.scopes
    unfold checkBlock
    refine .bind (R := fun t out => Looks s (freeNames (Source.partsStmts {} stmts))
      (fun bound => Term.closuresStmts bound out) t) (.inScope ?_) fun out t ht => .pure ht
    refine (checkStmts_looks (s := { s with scopes := s.scopes.push }) h hs hpush stmts hplain
      hint).imp ?_
    rintro t out ⟨⟨locals, hopened⟩, hreach⟩
    refine ⟨?_, ?_⟩
    · rw [List.filter_eq_self.mpr (by simp)] at hopened
      exact hopened.pop
    · have hresolve : s.scopes.push.resolve = s.scopes.resolve :=
        funext fun x => hpush.resolve_eq List.not_mem_nil
      exact hresolve ▸ hreach
termination_by structural b

/-- **Statements look up their names in one scope**, which the invariant
`LooksIn` follows: what was introduced by the statements so far is looked for
here and no further out. -/
theorem checkStmts_looks {s : State β} {c : Scopes} {locals : List String}
    (h : Demands ctx demand) (hs : s.scopes.dedup = true)
    (hopened : Scopes.Opened c locals s.scopes) (stmts : List (Stmt μ))
    (hplain : Source.stmtsPlain stmts = true) (hint : Option Ty) :
    IfOk (fun t out => LooksIn c locals s (freeNames (Source.partsStmts {} stmts))
        (fun bound => Term.closuresStmts bound out) t)
      (checkStmts ctx demand expand stmts hint s) := by
  match stmts with
  | [] => unfold checkStmts; exact .pure ⟨⟨locals, hopened⟩, .nil⟩
  | stmt :: rest =>
    rw [stmtsPlain_cons, Bool.and_eq_true] at hplain
    unfold checkStmts
    refine .bind (checkStmt_looks h hs stmt hplain.1 _) ?_
    rintro out t ⟨ht, hlocals⟩
    have hstmt : Scopes.Opened _ locals t.scopes :=
      (show t.scopes = _ from ht.visits) ▸ hopened.visit (freeNames (stmt.parts {}))
    -- the rest is checked with what the statement has introduced
    have hrest (u : State β) (hdedup : u.scopes.dedup = true)
        (hu : Scopes.Opened (c.visit ((freeNames (stmt.parts {})).filter (· ∉ locals)))
          (out.locals ++ locals) u.scopes)
        (hresolve : ∀ x, x ∉ out.locals → u.scopes.resolve x = t.scopes.resolve x) :
        IfOk (fun t out => LooksIn c locals s (freeNames (Source.partsStmts {} (stmt :: rest)))
            (fun bound => Term.closuresStmts bound out) t)
          ((checkStmts ctx demand expand rest hint >>= fun rest => pure (out :: rest)) u) := by
      refine .bind (checkStmts_looks h hdedup hu rest hplain.2 hint) fun rest' v hv => ?_
      rw [freeNames_cons, ← hlocals]
      exact .pure (ht.cons hv hresolve)
    cases out with
    | bind span name ty body =>
      refine .bind (introduce_ifOk .assignable name ty) fun _ u hadd => ?_
      obtain ⟨hu, -, hdedup⟩ := hstmt.add hadd
      refine hrest u (hdedup.trans (ht.visits.dedup.trans hs)) hu fun x hx => ?_
      rw [Scopes.resolve_add (l := ⟨name, .assignable, ty⟩) hadd]
      exact Env.bind_of_ne (by simpa [Term.Stmt.locals] using hx)
    | _ => exact hrest t (ht.visits.dedup.trans hs) hstmt fun _ _ => rfl
termination_by structural stmts

/-- A statement looks up the names in it, and introduces those that it says it
does. -/
theorem checkStmt_looks {s : State β} (h : Demands ctx demand) (hs : s.scopes.dedup = true)
    (stmt : Stmt μ) (hplain : Source.stmtsPlain [stmt] = true) (hint : Option Ty) :
    IfOk (fun t (out : Term.Stmt) =>
        Looks s (freeNames (stmt.parts {})) (fun bound => out.closures bound) t ∧
          out.locals = stmt.locals)
      (checkStmt ctx demand expand stmt hint s) := by
  match stmt with
  | .bind span name a body =>
    rw [Source.stmtsPlain, Bool.and_eq_true, Bool.and_eq_true] at hplain
    unfold checkStmt
    refine .bind (ascribed_visits hs fun _ hu => infer_looks h hu a hplain.1.1 _) fun ty t ht => ?_
    refine .bind (checkBlock_looks h (ht.dedup.trans hs) body hplain.1.2 (some ty))
      fun body' u hu => .expect_bind ?_
    rw [Stmt.parts, Source.freeNames_append, Source.freeNames_ascription, freeNames_of_bound rfl]
    exact .pure ⟨hu.after ht, rfl⟩
  | .assign span target op body =>
    rw [Source.stmtsPlain, Bool.and_eq_true] at hplain
    unfold checkStmt
    refine .bind (typeOf_visits h target) ?_
    rintro ⟨binding, ty⟩ t ht
    rcases binding with x | ⟨l, - | -, lty⟩
    · exact .report_bind _ _
    · exact .report_bind _ _
    · refine .bind (checkBlock_looks h (ht.dedup.trans hs) body hplain.1 (some ty))
        fun body' u hu => ?_
      have hlast : IfOk (fun t (out : Term.Stmt) =>
          Looks s (freeNames ((Stmt.assign span target op body).parts {}))
            (fun bound => out.closures bound) t ∧ out.locals = [])
          ((Analysis.expect .assignment ty body'.ty body'.resultSpan >>= fun _ =>
            pure (Term.Stmt.assign span target.text op body')) u) :=
        .expect_bind (.pure ⟨hu.after ht, rfl⟩)
      cases op.binary? with
      | some binary => exact .reportIf fun _ => hlast
      | none => exact hlast
  | .branch span condition yes no =>
    rw [Source.stmtsPlain, Bool.and_eq_true, Bool.and_eq_true, Bool.and_eq_true] at hplain
    unfold checkStmt
    refine .bind (infer_looks h hs condition hplain.1.1.1 _) fun condition' t ht => ?_
    refine .reportIf fun _ => ?_
    have htdedup := ht.visits.dedup.trans hs
    refine .bind (checkBlock_looks h htdedup yes hplain.1.1.2 hint) fun yes' u hu => ?_
    refine .bind (checkBlock_looks h (hu.visits.dedup.trans htdedup) no hplain.1.2 hint)
      fun no' v hv => ?_
    refine .reportIf fun _ => ?_
    rw [Stmt.parts, Source.freeNames_append, Source.freeNames_append]
    exact .pure ⟨(ht.append hu).append hv, rfl⟩
  | .eval e =>
    rw [Source.stmtsPlain, Bool.and_eq_true] at hplain
    unfold checkStmt
    exact .bind (infer_looks h hs e hplain.1 hint) fun e' t ht => .pure ⟨ht, rfl⟩
termination_by structural stmt

end

/-- **The captures of a closure are exact**, where `free` are the names that are
free in its body and `E` is the environment of the closure: it captures those
names that are locals, each once and in the order in which they are first met.
It passes on what closures inside it capture, and so do those. -/
def CapturesExactly (E : Env) (free : List String) (e : Term) : Prop :=
  ∃ params captures body, e.node = .closure params captures body ∧
    captures.Nodup ∧ (∀ x, x ∈ captures ↔ x ∈ free ∧ E.IsLocal x) ∧
    captures.Pairwise (fun x y => free.idxOf x < free.idxOf y) ∧
    ∀ k ∈ e.closures [], k.PassesOn

/-- What a closure captures comes in order. -/
theorem pairwise_outerLocals (E : Env) (names : List String) :
    (outerLocals E names).Pairwise fun x y => names.idxOf x < names.idxOf y :=
  (pairwise_eraseDups names).filter _

/-- **Closures capture exactly**, if there is nothing to expand in the body.
There may be in their own ascriptions, which are checked before the scope of the
closure is opened. -/
theorem infer_closure_captures (h : Provides ctx demand expand) (hs : s.scopes.dedup = true)
    (span : Span) (params : List (Param (Expr μ))) (result : Expr μ) {body : Source.Block μ}
    (hplain : body.isPlain = true) (hint : Option Ty) :
    IfOk (fun _ e => CapturesExactly s.scopes.resolve
        (freeNames (body.parts (Place.body {} (params.map (·.name.text))))) e)
      (infer ctx demand expand (.closure span params result body) hint s) := by
  unfold infer
  refine .bind ((IfOk.of_proceeds (inferParams_proceeds h rfl params)).and
    (inferParams_names params)) ?_
  rintro params' t ⟨ht, hnames⟩
  refine .bind (.of_proceeds (ascribed_proceeds ht fun _ hu => infer_proceeds h hu result _))
    fun result' u hu => ?_
  have hresolve : u.scopes.resolve = s.scopes.resolve := by
    rw [← Scopes.resolve_bare, show u.scopes.bare = _ from hu, Scopes.resolve_bare]
  have hdedup : u.scopes.dedup = s.scopes.dedup := (congrArg Scopes.dedup hu :)
  refine .bind (inClosure_looks (hdedup.trans hs)
    (fun v hv => checkBlock_looks h.demands hv body hplain _) params') ?_
  rintro ⟨body', captures⟩ v ⟨hv, rfl, hreach⟩
  refine .expect_bind (.pure ?_)
  have hlooks := closure_looks span (.functionOf (params'.map (·.2)) result') hv hreach
  have horder := pairwise_outerLocals s.scopes.resolve
    ((freeNames (body.parts {})).filter (· ∉ params.map (·.name.text)))
  rw [hnames, hresolve] at hlooks ⊢
  rw [freeNames_body]
  refine ⟨_, _, _, rfl, horder.imp fun hlt heq => ?_, fun x => mem_outerLocals, horder,
    fun k hk => (hlooks.reach [] k hk).2.1⟩
  exact absurd hlt (heq ▸ Nat.lt_irrefl _)

end

/-- **Captures are exact.** Whenever a closure was checked whose body has
nothing to expand, be it of the source or of a tree that was expanded, its
captures are exact in the scopes where the checking began, if these keep one
capture per name.

The scope of a closure captures what is visited in it and refers to something
outside. By `checkBlock_looks` it is the free names of the body that are
visited, in the order of the source, and a scope keeps one capture for each
name. Those that are no locals are not listed. -/
theorem captures_exact (ctx : Context β) (depth : Nat) (s t : State β) (hint : Option Ty)
    (hs : s.scopes.dedup = true) (span : Span) (e : Term) :
    (∀ (params : List (Param (Expr Invocation))) (result : Expr Invocation)
      (body : Source.Block Invocation), body.isPlain = true →
      inferWithin ctx depth (.closure span params result body) hint s = .ok e t →
      CapturesExactly s.scopes.resolve
        (freeNames (body.parts (Place.body {} (params.map (·.name.text))))) e) ∧
    ∀ (params : List (Param (Expr Empty))) (result : Expr Empty) (body : Source.Block Empty),
      body.isPlain = true →
      inferExpanded ctx (demandWith ctx (analyzeWithin ctx depth))
        (.closure span params result body) hint s = .ok e t →
      CapturesExactly s.scopes.resolve
        (freeNames (body.parts (Place.body {} (params.map (·.name.text))))) e := by
  have hprovides := provides_demandWith ctx depth
  refine ⟨fun params result body hplain hok => ?_, fun params result body hplain hok => ?_⟩
  · exact IfOk.of_eq_ok (infer_closure_captures hprovides hs span params result hplain hint) hok
  · exact IfOk.of_eq_ok (infer_closure_captures ⟨hprovides.demands, fun _ _ _ m => m.elim⟩ hs span
      params result hplain hint) hok

/-- A closure that adds up what is around it, with another one inside that does
so too. -/
def addingUp : Expr Invocation :=
  .closure .nowhere [⟨.unplaced "x", .var (.unplaced "Int")⟩] (.var (.unplaced "Int"))
    ⟨.nowhere,
      [.bind .nowhere (.unplaced "y") (.var (.unplaced "Int")) (.ofExpr (.var (.unplaced "a"))),
        .assign .nowhere (.unplaced "b") .addAssign (.ofExpr (.var (.unplaced "x"))),
        .eval (.call .nowhere
          (.closure .nowhere [⟨.unplaced "a", .var (.unplaced "Int")⟩] (.var (.unplaced "Int"))
            (.ofExpr (.binary .nowhere .add (.var (.unplaced "c"))
              (.binary .nowhere .add (.var (.unplaced "b"))
                (.binary .nowhere .add (.var (.unplaced "y")) (.var (.unplaced "a")))))))
          [.var (.unplaced "b")])]⟩

/-- Scopes with three locals. -/
def amid (ctx : Context (Buffer Unit)) : State (Buffer Unit) :=
  { ctx.start { evaluator := () } with
    scopes := { topLevel := ctx.declarations.names, dedup := true, inner := [{ entries :=
      [⟨.unplaced "a", .lexical ⟨.unplaced "a", .parameter, .int⟩⟩,
        ⟨.unplaced "b", .lexical ⟨.unplaced "b", .assignable, .int⟩⟩,
        ⟨.unplaced "c", .lexical ⟨.unplaced "c", .parameter, .int⟩⟩] }] } }

/-- The inner closure captures `c` and `b` and a local of the outer one. The
outer one captures `a` and `b`, which it mentions itself, and `c` only since it
has to pass that on. -/
theorem addingUp_captures : ∃ (ds : Declarations) (e : Term) (t : State (Buffer Unit)),
    Declarations.collect [] = .ok ds ∧
      inferSource ⟨ds, {}, Buffer.backend none⟩ addingUp none
        (amid ⟨ds, {}, Buffer.backend none⟩) = .ok e t ∧
      (e.closures []).map (·.captures) = [["a", "b", "c"], ["c", "b", "y"]] ∧
      CapturesExactly (amid ⟨ds, {}, Buffer.backend none⟩).scopes.resolve
        ["Int", "a", "b", "Int", "Int", "c", "b", "b"] e := by
  have hrun : ((Declarations.collect []).toOption.map fun ds =>
      match inferSource ⟨ds, {}, Buffer.backend none⟩ addingUp none
          (amid ⟨ds, {}, Buffer.backend none⟩) with
      | .ok e _ => some ((e.closures []).map (·.captures))
      | .error _ _ => none) = some (some [["a", "b", "c"], ["c", "b", "y"]]) := by
    decide +kernel
  cases hds : Declarations.collect [] with
  | error e =>
    rw [hds] at hrun
    cases hrun
  | ok ds =>
    rw [hds] at hrun
    replace hrun := Option.some.inj hrun
    dsimp only at hrun
    cases hterm : inferSource ⟨ds, {}, Buffer.backend none⟩ addingUp none
        (amid ⟨ds, {}, Buffer.backend none⟩) with
    | error h t =>
      rw [hterm] at hrun
      cases hrun
    | ok e t =>
      rw [hterm] at hrun
      exact ⟨ds, e, t, rfl, hterm, Option.some.inj hrun,
        (captures_exact _ _ _ t none rfl _ e).1 _ _ _ (by decide +kernel) hterm⟩

end Analysis

end Stagewise
