import Stagewise.Proofs.Analysis.Follows
import Stagewise.Proofs.Declaration.Lookup

/-!
# Analyses side by side

Two analyses may differ in what they work with, or in how they ask for types,
and still have to do with each other. To compare them is to relate steps of the
one with steps of the other. If a relation is kept by the operations that steps
are made of (`Congruence`), and relates what the checking of trees leaves to
others (`Corresponds`), then it relates the checking of every tree.

What a relation says is open. That a tree is walked through is said here once,
and not by each comparison for itself.

To know what a step does to a state, it has to be unfolded. This is done here as
well, for every step of which a comparison has to know more than that it is the
same step: each has one lemma for each way it can go, with the state that is
left (`send_of_ok`, `evaluate_of_early`, `typeOf_of_global`,
`demandWith_of_fresh`, `settle_of_new`). No other module unfolds a step. If a
step is changed then its lemmas are what has to be proved again.
-/

namespace Stagewise

/-- **A backend replies by a table**: it takes all that it is told, and what it
says of something to be evaluated depends on the text alone. -/
structure Backend.Replies {β : Type} (backend : Backend β)
    (table : String → Except Backend.Fault Data) : Prop where
  declare : ∀ text b, (backend.declare text b).1 = .ok ()
  define : ∀ text b, (backend.define text b).1 = .ok ()
  evaluate : ∀ text b, (backend.evaluate text b).1 = table text

namespace Analysis

open Source (Expr Stmt Param Invocation)

variable {β μ : Type}

/-! ## Where steps end -/

/-- What holds of the state in which a step ends, in whatever way it ends. -/
def EndsIn {α : Type} (P : State β → Prop) : EStateM.Result Halt (State β) α → Prop
  | .ok _ t | .error _ t => P t

/-- A property of the end may be weakened. -/
theorem EndsIn.imp {α : Type} {P Q : State β → Prop} {r : EStateM.Result Halt (State β) α}
    (h : EndsIn P r) (hPQ : ∀ t, P t → Q t) : EndsIn Q r := by
  cases r with
  | ok a t => exact hPQ t h
  | error e t => exact hPQ t h

theorem EndsIn.get_bind {α : Type} {s : State β} {P : State β → Prop} {next : State β → Check β α}
    (h : EndsIn P (next s s)) : EndsIn P ((get >>= next) s) := h

/-- What the first step of a sequence keeps, the second may rely on. -/
theorem EndsIn.bindOk {α γ : Type} {s : State β} {P Q : State β → Prop} {step : Check β α}
    {next : α → Check β γ} (h : EndsIn P (step s)) (himp : ∀ t, P t → Q t)
    (hnext : ∀ a t, step s = .ok a t → P t → EndsIn Q (next a t)) :
    EndsIn Q ((step >>= next) s) := by
  cases hstep : step s with
  | ok a t =>
    rw [hstep] at h
    rw [bind_of_ok hstep]
    exact hnext a t hstep h
  | error e t =>
    rw [hstep] at h
    rw [bind_of_error hstep]
    exact himp t h

/-- The end of a step, in another state. -/
def leaving {α : Type} (leave : State β → State β) :
    EStateM.Result Halt (State β) α → EStateM.Result Halt (State β) α
  | .ok a t => .ok a (leave t)
  | .error e t => .error e (leave t)

/-- What is put back at the end has to be accounted for at the end only. -/
theorem EndsIn.leaving {α : Type} {P Q : State β → Prop} {leave : State β → State β}
    {r : EStateM.Result Halt (State β) α} (h : EndsIn P r) (hPQ : ∀ t, P t → Q (leave t)) :
    EndsIn Q (leaving leave r) := by
  cases r with
  | ok a t => exact hPQ t h
  | error e t => exact hPQ t h

/-- The other way round: what is known of the state after all was put back says
something of the state before that. -/
theorem EndsIn.of_leaving {α : Type} {P Q : State β → Prop} {leave : State β → State β}
    {r : EStateM.Result Halt (State β) α} (h : EndsIn P (Analysis.leaving leave r))
    (hPQ : ∀ t, P (leave t) → Q t) : EndsIn Q r := by
  cases r with
  | ok a t => exact hPQ t h
  | error e t => exact hPQ t h

/-- **A scope is taken off again, however the step in it ends.** Without this, a
report from within a scope would leave the analysis in the wrong place. -/
theorem inScope_apply {α : Type} (step : Check β α) (s : State β) :
    inScope step s = leaving (fun t => { t with scopes := t.scopes.pop })
      (step { s with scopes := s.scopes.push }) := by
  unfold inScope
  cases step { s with scopes := s.scopes.push } <;> rfl

/-- The same for the note that an ascription is being read, which is put back to
what it was. -/
theorem inAscription_apply {α : Type} (step : Check β α) (s : State β) :
    inAscription step s = leaving (fun t => { t with inAscription := s.inAscription })
      (step { s with inAscription := true }) := by
  unfold inAscription
  cases step { s with inAscription := true } <;> rfl

theorem introduce_of_ok {kind : Local.Kind} {name : Name} {ty : Ty} {s : State β} {scopes : Scopes}
    (h : s.scopes.add name (.lexical ⟨name, kind, ty⟩) = .ok scopes) :
    introduce kind name ty s = .ok () { s with scopes } := by
  unfold introduce
  rw [get_bind_apply]
  simp only [h]
  rfl

/-- A name that is taken is reported, and nothing is introduced. -/
theorem introduce_of_error {kind : Local.Kind} {name : Name} {ty : Ty} {s : State β}
    {d : Diagnostic} (h : s.scopes.add name (.lexical ⟨name, kind, ty⟩) = .error d) :
    introduce kind name ty s = report d s := by
  unfold introduce
  rw [get_bind_apply]
  simp only [h]

/-- **A step in the scope of a closure**, along with the outer locals that are
used in it. -/
def capturing {α : Type} (step : Check β α) : Check β (α × List String) :=
  inScope do
    let a ← step
    return (a, ← capturedNames)

/-! ## Congruences -/

/-- **A relation between steps that the operations keep.** -/
structure Congruence (Φ : {α : Type} → Check β α → Check β α → Prop) : Prop where
  pure {α : Type} (a : α) : Φ (pure a) (pure a)
  bind {α γ : Type} {x y : Check β α} {f g : α → Check β γ} (step : Φ x y)
    (next : ∀ a, Φ (f a) (g a)) : Φ (x >>= f) (y >>= g)
  report {α : Type} (d : Diagnostic) : Φ (report d : Check β α) (report d)
  inScope {α : Type} {x y : Check β α} (step : Φ x y) : Φ (inScope x) (inScope y)
  introduce (kind : Local.Kind) (name : Name) (ty : Ty) :
    Φ (introduce kind name ty) (introduce kind name ty)
  capturing {α : Type} {x y : Check β α} (step : Φ x y) : Φ (capturing x) (capturing y)

/-- **A relation between what two analyses leave to others** in the checking of
trees: names, ascriptions and expansions. -/
structure Corresponds (Φ : {α : Type} → Check β α → Check β α → Prop) (ctx ctx' : Context β)
    (demand demand' : String → Check β Ty)
    (expand expand' : Span → μ → Option Ty → Check β Term) : Prop where
  typeOf (name : Name) : Φ (typeOf demand name) (typeOf demand' name)
  ascribed (e : Expr μ)
    (step : Φ (infer ctx demand expand e (some .type))
      (infer ctx' demand' expand' e (some .type))) :
    Φ (ascribed ctx e.span (infer ctx demand expand e (some .type)))
      (ascribed ctx' e.span (infer ctx' demand' expand' e (some .type)))
  expand (span : Span) (m : μ) (hint : Option Ty) : Φ (expand span m hint) (expand' span m hint)

/-- **A relation between what two analyses do to expand text**: they see to it
that the expander is defined, and ask for what it returns. -/
structure ExpandsAlike (Φ : {α : Type} → Check β α → Check β α → Prop) (ctx ctx' : Context β) :
    Prop where
  defined {α : Type} (d : String) (e : Internal) {x y : Unit → Check β α}
    (next : Φ (x ()) (y ())) :
    Φ (get >>= fun s => if d ∉ s.defined then stop (.internal e) >>= x else x ())
      (get >>= fun s => if d ∉ s.defined then stop (.internal e) >>= y else y ())
  expansion (binding : Binding) (text : String) :
    Φ (expansion ctx binding text) (expansion ctx' binding text)

/-- The test for an expander that is not defined is passed by one that is. -/
theorem defined_of_mem {α : Type} {d : String} {f : Fatal} {x : Unit → Check β α} {s : State β}
    (h : d ∈ s.defined) :
    (get >>= fun s => if d ∉ s.defined then stop f >>= x else x ()) s = x () s := by
  rw [get_bind_apply, if_neg (not_not.mpr h)]

/-- It stops everything where there is none. -/
theorem defined_of_not_mem {α : Type} {d : String} {f : Fatal} {x : Unit → Check β α}
    {s : State β} (h : d ∉ s.defined) :
    (get >>= fun s => if d ∉ s.defined then stop f >>= x else x ()) s = stop f s := by
  rw [get_bind_apply, if_pos h]
  rfl

namespace Congruence

variable {Φ : {α : Type} → Check β α → Check β α → Prop} {α : Type}

/-- Nothing comes after a report. -/
theorem report_bind (h : Congruence Φ) {γ : Type} (d : Diagnostic) (f g : γ → Check β α) :
    Φ (Analysis.report d >>= f) (Analysis.report d >>= g) := h.report d

/-- A test that has to come out false. -/
theorem reportIf (h : Congruence Φ) {P : Prop} [Decidable P] {d : Diagnostic}
    {f g : Unit → Check β α} (next : Φ (f ()) (g ())) :
    Φ (if P then Analysis.report d >>= f else f ())
      (if P then Analysis.report d >>= g else g ()) := by
  split
  · exact h.report_bind d f g
  · exact next

theorem expect (h : Congruence Φ) (site : Site) (expected found : Ty) (span : Span) :
    Φ (expect site expected found span) (expect site expected found span) := by
  unfold Analysis.expect
  split
  · exact h.pure ()
  · exact h.report _

/-- Parameters are introduced one by one, from the first to the last. -/
theorem introduceParams (h : Congruence Φ) (params : List (Name × Ty)) :
    Φ (introduceParams params) (introduceParams params) := by
  unfold Analysis.introduceParams
  induction params with
  | nil => exact h.pure ()
  | cons p params ih =>
    rw [List.forM_eq_forM, List.forM_cons]
    exact h.bind (h.introduce ..) fun _ => ih

/-!
## Trees

The induction is on the tree, by the same recursion as the checking of trees
itself. In each case the two sides do the same steps in the same order, and only
in three places is the relation asked for more than to be a congruence: at a
name, at an ascription and at text to be expanded.
-/

section

variable {ctx ctx' : Context β} {demand demand' : String → Check β Ty}
  {expand expand' : Span → μ → Option Ty → Check β Term}

mutual

/-- **The checking of an expression is related.** -/
theorem infer (h : Congruence Φ) (hc : Corresponds Φ ctx ctx' demand demand' expand expand')
    (e : Expr μ) (hint : Option Ty) :
    Φ (infer ctx demand expand e hint) (infer ctx' demand' expand' e hint) := by
  cases e with
  | int | float | bool | string | typeLiteral => unfold Analysis.infer; exact h.pure _
  | var name => unfold Analysis.infer; exact h.bind (hc.typeOf name) fun _ => h.pure _
  | call span callee arguments =>
    unfold Analysis.infer
    refine h.bind (infer h hc callee none) fun callee => ?_
    cases callee.ty with
    | fn argument result =>
      refine h.reportIf ?_
      exact h.bind (inferArguments h hc arguments _) fun _ => h.pure _
    | _ => exact h.report _
  | tuple span elements =>
    unfold Analysis.infer
    exact h.bind (inferEach h hc elements _) fun _ => h.pure _
  | list span elements =>
    unfold Analysis.infer
    exact h.bind (inferElements h hc elements _) fun _ => h.pure _
  | unary span op operand =>
    unfold Analysis.infer
    refine h.bind (infer h hc operand none) fun operand => ?_
    cases unaryTy op operand.ty with
    | some ty => exact h.pure _
    | none => exact h.report _
  | binary span op left right =>
    unfold Analysis.infer
    refine h.bind (infer h hc left none) fun left => ?_
    refine h.bind (infer h hc right _) fun right => ?_
    cases binaryTy op left.ty right.ty with
    | some ty => exact h.pure _
    | none => exact h.report _
  | expand span m => unfold Analysis.infer; exact hc.expand span m hint
  | closure span params result body =>
    unfold Analysis.infer
    refine h.bind (inferParams h hc params) fun params => ?_
    refine h.bind (hc.ascribed result (infer h hc result _)) fun result => ?_
    have hbody := h.capturing <| h.bind (h.introduceParams params) fun _ =>
      checkBlock h hc body (some result)
    unfold Analysis.capturing at hbody
    rw [bind_assoc, bind_assoc] at hbody
    exact h.bind hbody fun _ => h.bind (h.expect ..) fun _ => h.pure _
termination_by structural e

/-- The arguments of a call are related, each with the type of its parameter as
a hint. -/
theorem inferArguments (h : Congruence Φ)
    (hc : Corresponds Φ ctx ctx' demand demand' expand expand') (es : List (Expr μ))
    (ts : List Ty) :
    Φ (inferArguments ctx demand expand es ts) (inferArguments ctx' demand' expand' es ts) := by
  match es, ts with
  | e :: es, t :: ts =>
    unfold Analysis.inferArguments
    refine h.bind (infer h hc e _) fun e => h.bind (h.expect ..) fun _ => ?_
    exact h.bind (inferArguments h hc es ts) fun _ => h.pure _
  | [], _ => unfold Analysis.inferArguments; exact h.pure _
  | _ :: _, [] => unfold Analysis.inferArguments; exact h.pure _
termination_by structural es

theorem inferEach (h : Congruence Φ) (hc : Corresponds Φ ctx ctx' demand demand' expand expand')
    (es : List (Expr μ)) (hints : List (Option Ty)) :
    Φ (inferEach ctx demand expand es hints) (inferEach ctx' demand' expand' es hints) := by
  match es, hints with
  | e :: es, hint :: hints =>
    unfold Analysis.inferEach
    refine h.bind (infer h hc e _) fun e => ?_
    exact h.bind (inferEach h hc es hints) fun _ => h.pure _
  | [], _ => unfold Analysis.inferEach; exact h.pure _
  | _ :: _, [] => unfold Analysis.inferEach; exact h.pure _
termination_by structural es

/-- The elements of a list are related. The type of the first is the hint for
the rest. -/
theorem inferElements (h : Congruence Φ)
    (hc : Corresponds Φ ctx ctx' demand demand' expand expand') (es : List (Expr μ))
    (ty : Option Ty) :
    Φ (inferElements ctx demand expand es ty) (inferElements ctx' demand' expand' es ty) := by
  match es, ty with
  | [], _ => unfold Analysis.inferElements; exact h.pure _
  | e :: es, none =>
    unfold Analysis.inferElements
    refine h.bind (infer h hc e _) fun e => ?_
    exact h.bind (inferElements h hc es _) fun _ => h.pure _
  | e :: es, some t =>
    unfold Analysis.inferElements
    refine h.bind (infer h hc e _) fun e => h.bind (h.expect ..) fun _ => ?_
    exact h.bind (inferElements h hc es _) fun _ => h.pure _
termination_by structural es

theorem inferParams (h : Congruence Φ)
    (hc : Corresponds Φ ctx ctx' demand demand' expand expand') (ps : List (Param (Expr μ))) :
    Φ (inferParams ctx demand expand ps) (inferParams ctx' demand' expand' ps) := by
  match ps with
  | [] => unfold Analysis.inferParams; exact h.pure _
  | ⟨name, ascription⟩ :: ps =>
    unfold Analysis.inferParams
    refine h.bind (hc.ascribed ascription (infer h hc ascription _)) fun ty => ?_
    exact h.bind (inferParams h hc ps) fun _ => h.pure _
termination_by structural ps

/-- **The checking of a block is related.** -/
theorem checkBlock (h : Congruence Φ)
    (hc : Corresponds Φ ctx ctx' demand demand' expand expand') (b : Source.Block μ)
    (hint : Option Ty) :
    Φ (checkBlock ctx demand expand b hint) (checkBlock ctx' demand' expand' b hint) := by
  match b with
  | ⟨span, stmts⟩ =>
    unfold Analysis.checkBlock
    exact h.bind (h.inScope (checkStmts h hc stmts hint)) fun _ => h.pure _
termination_by structural b

/-- Statements are related, one after the other. -/
theorem checkStmts (h : Congruence Φ)
    (hc : Corresponds Φ ctx ctx' demand demand' expand expand') (stmts : List (Stmt μ))
    (hint : Option Ty) :
    Φ (checkStmts ctx demand expand stmts hint) (checkStmts ctx' demand' expand' stmts hint) := by
  match stmts with
  | [] => unfold Analysis.checkStmts; exact h.pure _
  | stmt :: rest =>
    unfold Analysis.checkStmts
    refine h.bind (checkStmt h hc stmt _) fun stmt => ?_
    have hrest := h.bind (checkStmts h hc rest hint) fun rest => h.pure (stmt :: rest)
    cases stmt with
    | bind span name ty body => exact h.bind (h.introduce ..) fun _ => hrest
    | _ => exact hrest
termination_by structural stmts

/-- **The checking of a statement is related.** The arms of a branch are blocks,
and what is matched is an expression. -/
theorem checkStmt (h : Congruence Φ) (hc : Corresponds Φ ctx ctx' demand demand' expand expand')
    (stmt : Stmt μ) (hint : Option Ty) :
    Φ (checkStmt ctx demand expand stmt hint) (checkStmt ctx' demand' expand' stmt hint) := by
  match stmt with
  | .bind span name ascription body =>
    unfold Analysis.checkStmt
    refine h.bind (hc.ascribed ascription (infer h hc ascription _)) fun ty => ?_
    exact h.bind (checkBlock h hc body _) fun _ => h.bind (h.expect ..) fun _ => h.pure _
  | .assign span target op body =>
    unfold Analysis.checkStmt
    refine h.bind (hc.typeOf target) fun out => ?_
    obtain ⟨binding, ty⟩ := out
    match binding with
    | .lexical ⟨_, .assignable, _⟩ =>
      refine h.bind (checkBlock h hc body _) fun body => ?_
      have hlast := h.bind (h.expect .assignment ty body.ty body.resultSpan) fun _ =>
        h.pure (Term.Stmt.assign span target.text op body)
      cases op.binary? with
      | some binary => exact h.reportIf hlast
      | none => exact hlast
    | .lexical ⟨_, .parameter, _⟩ => exact h.report_bind ..
    | .global _ => exact h.report_bind ..
  | .branch span condition yes no =>
    unfold Analysis.checkStmt
    refine h.bind (infer h hc condition _) fun condition => h.reportIf ?_
    refine h.bind (checkBlock h hc yes hint) fun yes => ?_
    exact h.bind (checkBlock h hc no hint) fun no => h.reportIf (h.pure _)
  | .eval e =>
    unfold Analysis.checkStmt
    exact h.bind (infer h hc e hint) fun _ => h.pure _
termination_by structural stmt

end

end

/-! ## Expansions -/

/-- **The expansion of text is related**, if the checking of what comes of it
is. -/
theorem expand {ctx ctx' : Context β} {demand demand' : String → Check β Ty} (h : Congruence Φ)
    (hx : ExpandsAlike Φ ctx ctx') (htypeOf : ∀ name, Φ (typeOf demand name) (typeOf demand' name))
    (hexpanded : ∀ e hint, Φ (inferExpanded ctx demand e hint) (inferExpanded ctx' demand' e hint))
    (span : Span) (m : Invocation) (hint : Option Ty) :
    Φ (expand ctx demand span m hint) (expand ctx' demand' span m hint) := by
  unfold Analysis.expand
  refine h.bind (htypeOf m.expander) fun out => ?_
  obtain ⟨binding, ty⟩ := out
  refine h.bind (h.expect ..) fun _ => ?_
  suffices hrun :
      Φ (expansion ctx binding (expansionText m (hint.getD .nil)) >>= _)
        (expansion ctx' binding (expansionText m (hint.getD .nil)) >>= _) by
    cases binding with
    | lexical l => exact hrun
    | global x => exact hx.defined x _ hrun
  refine h.bind (hx.expansion ..) fun d => ?_
  cases Expansion.decode [hint.getD .nil] span d with
  | error cause => exact h.report _
  | ok result => exact h.reportIf (hexpanded result.2 hint)

end Congruence

/-!
## Ascriptions

What is left to a comparison is what depends on the state: ascriptions, by what
is known and what is defined, and names.
-/

section

variable {ctx : Context β} {e : Term} {s : State β}

/-- To find the expected type changes nothing. -/
theorem eq_of_expect {site : Site} {expected found : Ty} {span : Span}
    {t : State β} (h : expect site expected found span s = .ok () t) : t = s := by
  unfold expect at h
  split at h
  · cases h
    rfl
  · cases h

/-- What a reply says. -/
def decoded (d : Data) : Check β Value :=
  match Value.decode [] d with
  | .ok v => pure v
  | .error e => stop (.backend (.decode e))

/-- The type that a value is. -/
def asType : Value → Check β Ty
  | .type ty => pure ty
  | v => stop (.backend (.protocol ("type annotation evaluated to " ++ v.listing)))

/-- **An ascription** is checked and folded, and evaluated if it does not
fold. -/
theorem ascribed_eq (ctx : Context β) (span : Span) (step : Check β Term) :
    ascribed ctx span step = inAscription step >>= fun e =>
      expect .plain .type e.ty span >>= fun _ => folded ctx e >>= fun v =>
        v.elim (evaluate ctx e) pure >>= asType := by
  unfold ascribed
  refine congrArg _ (funext fun e => congrArg _ (funext fun _ => congrArg _ (funext fun v => ?_)))
  cases v with
  | none =>
    dsimp only [Option.elim_none]
    refine congrArg _ (funext fun v => ?_)
    cases v <;> rfl
  | some v => cases v <;> rfl

/-- The value that an ascription folds to, where folding is allowed. -/
def Context.foldedTo? (ctx : Context β) (known : Values) (e : Term) : Option Value :=
  if ctx.options.fold then Fold.term known e else none

/-- To fold an ascription changes nothing but what is noted of it. Folding
cannot fail, it can only come to nothing. -/
theorem folded_apply (ctx : Context β) (e : Term) (s : State β) :
    folded ctx e s = .ok (ctx.foldedTo? s.values e) (s.folding e (ctx.foldedTo? s.values e)) := rfl

theorem foldedBlock_apply (ctx : Context β) (b : Term.Block) (s : State β) :
    foldedBlock ctx b s = .ok (if ctx.options.fold then Fold.block s.values b else none)
      { s with moments := s.now :: s.moments } := rfl

/-- The state after a request, which was accepted or not. -/
def State.asked (s : State β) (said : Exchange) (b : β) : State β :=
  { s with backend := b, transcript := s.transcript ++ [said], moments := s.now :: s.moments }

/-- A request that is accepted is noted with this answer. -/
theorem send_of_ok {α : Type} {kind : Request} {subject : Subject} {text : String}
    {run : β → Except Backend.Fault α × β} {a : α} (h : (run s.backend).1 = .ok a) :
    send kind subject text run s
      = .ok a (s.asked ⟨kind, text, subject, true⟩ (run s.backend).2) := by
  unfold send
  generalize run s.backend = r at h ⊢
  obtain ⟨r, b⟩ := r
  obtain rfl : r = .ok a := h
  rfl

/-- A request that is refused is noted too, and then everything stops. It is the
last that is noted. -/
theorem send_of_error {α : Type} {kind : Request} {subject : Subject} {text : String}
    {run : β → Except Backend.Fault α × β} {f : Backend.Fault} (h : (run s.backend).1 = .error f) :
    send kind subject text run s = .error (.fatal (.backend f))
      (s.asked ⟨kind, text, subject, false⟩ (run s.backend).2) := by
  unfold send
  generalize run s.backend = r at h ⊢
  obtain ⟨r, b⟩ := r
  obtain rfl : r = .error f := h
  rfl

/-- **Nothing is evaluated before all it refers to is defined.** Where this
would happen it is a defect of the compiler, and the backend hears nothing of
it. -/
theorem evaluate_of_early {x : String} (h : e.globals.find? (· ∉ s.defined) = some x) :
    evaluate ctx e s = .error (.fatal (.internal (.evaluatedTooEarly x))) s := by
  unfold evaluate
  rw [get_bind_apply]
  simp only [h]
  rfl

theorem evaluate_of_defined (h : e.globals.find? (· ∉ s.defined) = none) :
    evaluate ctx e s = (send .evaluate (.term e) e.lower.text
      (ctx.backend.evaluate e.lower.text) >>= decoded) s := by
  unfold evaluate
  rw [get_bind_apply]
  simp only [h]
  rfl

/-- A term whose declarations are defined has the value that the backend replies
with. -/
theorem evaluate_of_reply (h : e.globals.find? (· ∉ s.defined) = none) {d : Data} {v : Value}
    (hreply : (ctx.backend.evaluate e.lower.text s.backend).1 = .ok d)
    (hdecode : Value.decode [] d = .ok v) :
    evaluate ctx e s = .ok v (s.asked ⟨.evaluate, e.lower.text, .term e, true⟩
      (ctx.backend.evaluate e.lower.text s.backend).2) := by
  rw [evaluate_of_defined h, bind_of_ok (send_of_ok hreply), decoded, hdecode]
  rfl

end

section

variable {ctx : Context β} {s : State β} {binding : Binding} {text : String} {d : Data}

/-- The state after text was expanded by something. -/
def State.expanded (s : State β) (text : String) (d : Data) : State β :=
  { s with expansions := s.expansions ++ [(text, d)] }

/-- Text that was expanded before is not sent to the backend again. -/
theorem expansion_of_known (h : s.cache.get? text = some d) :
    expansion ctx binding text s = .ok d (s.expanded text d) := by
  unfold expansion
  rw [get_bind_apply]
  simp only [h]
  rfl

/-- Other text is, and what comes of it is kept for the next time. -/
theorem expansion_of_unknown (h : s.cache.get? text = none) :
    expansion ctx binding text s = (send .evaluate (.expansion binding) text
      (ctx.backend.evaluate text) >>= fun d => modify (fun s => { s.expanded text d with
        cache := s.cache.insert text d }) >>= fun _ => pure d : Check β Data) s := by
  unfold expansion
  rw [get_bind_apply]
  simp only [h]
  rfl

end

/-!
## Names

A name is looked up in the scopes, and what is found is noted. If it is a
declaration then its type is asked for. There are five cases of what is known of
it by then (`Asked`): its type is published, it was refused, its type is being
computed, it does not exist, or it is there to be settled. Each of them has its
lemma below.
-/

variable {ctx : Context β} {demand : String → Check β Ty} {s : State β} {x : String} {name : Name}
  {scopes : Scopes}

/-- The state after a name was found. -/
def State.found (s : State β) (name : String) (binding : Binding) (scopes : Scopes) : State β :=
  { s with
    scopes
    resolutions := s.resolutions ++ [⟨s.active.head?, name, binding⟩]
    moments := s.now :: s.moments }

/-- What is wrong with a name that is not found. -/
def State.unknown (s : State β) (name : Name) : Diagnostic :=
  if s.inAscription then .undefinedType name.text name.span
  else .undefinedVariable name.text name.span

theorem typeOf_of_none (h : s.scopes.get name.text = none) :
    typeOf demand name s = report (s.unknown name) s := by
  unfold typeOf
  rw [get_bind_apply]
  simp only [h]
  rfl

/-- A local has its type with it, so nothing is asked for. -/
theorem typeOf_of_lexical {l : Local} (h : s.scopes.get name.text = some (.lexical l, scopes)) :
    typeOf demand name s = .ok (.lexical l, l.ty) (s.found name.text (.lexical l) scopes) := by
  unfold typeOf
  rw [get_bind_apply]
  simp only [h]
  rfl

/-- **A name of a declaration is noted before its type is asked for.** So it is
on record even if asking for the type stops the analysis. -/
theorem typeOf_of_global (h : s.scopes.get name.text = some (.global x, scopes)) :
    typeOf demand name s =
      (demand x >>= fun ty => pure (.global x, ty)) (s.found name.text (.global x) scopes) := by
  unfold typeOf
  rw [get_bind_apply]
  simp only [h]
  rfl

/-- What is said of a declaration that was gone through: its type, or that it
has none. -/
def answer (x : String) : Check β Ty := do
  let s ← get
  match s.types.lookup x with
  | some ty => return ty
  | none => if x ∈ s.failed then throw .diagnostics else stop (.internal (.missingType x))

theorem answer_of_published {ty : Ty} (h : s.types.lookup x = some ty) :
    answer x s = .ok ty s := by
  unfold answer
  rw [get_bind_apply]
  simp only [h]
  rfl

theorem answer_of_failed (hnew : s.types.lookup x = none) (hfailed : x ∈ s.failed) :
    answer x s = .error .diagnostics s := by
  unfold answer
  rw [get_bind_apply]
  simp only [hnew, hfailed, if_true]
  rfl

theorem answer_of_missing (hnew : s.types.lookup x = none) (hfailed : x ∉ s.failed) :
    answer x s = .error (.fatal (.internal (.missingType x))) s := by
  unfold answer
  rw [get_bind_apply]
  simp only [hnew, hfailed, if_false]
  rfl

/-- **What is known of a declaration when its type is asked for.** -/
inductive Asked (ctx : Context β) (s : State β) : String → Prop where
  | published {x : String} {ty : Ty} (published : s.types.lookup x = some ty) : Asked ctx s x
  | failed {x : String} (new : s.types.lookup x = none) (failed : x ∈ s.failed) : Asked ctx s x
  | inProgress {x : String} (new : s.types.lookup x = none) (failed : x ∉ s.failed)
    (inProgress : x ∈ s.inProgress) : Asked ctx s x
  | undeclared {x : String} (new : s.types.lookup x = none) (failed : x ∉ s.failed)
    (inProgress : x ∉ s.inProgress) (undeclared : ctx.declarations.find? x = none) : Asked ctx s x
  | fresh {d : Declaration} (entry : d ∈ ctx.declarations.entries)
    (new : s.types.lookup d.name = none) (failed : d.name ∉ s.failed)
    (inProgress : d.name ∉ s.inProgress) : Asked ctx s d.name

/-- These are all cases. The order in which they are tried is that of
`demandWith`. -/
theorem asked (ctx : Context β) (s : State β) (x : String) : Asked ctx s x := by
  cases hnew : s.types.lookup x with
  | some ty => exact .published hnew
  | none =>
    by_cases hfailed : x ∈ s.failed
    · exact .failed hnew hfailed
    by_cases hprogress : x ∈ s.inProgress
    · exact .inProgress hnew hfailed hprogress
    cases hfind : ctx.declarations.find? x with
    | none => exact .undeclared hnew hfailed hprogress hfind
    | some d =>
      obtain ⟨hd, rfl⟩ := Declarations.find?_eq_some_iff.mp hfind
      exact .fresh hd hnew hfailed hprogress

variable {analyze : Declaration → Check β Unit}

theorem demandWith_of_published {ty : Ty} (h : s.types.lookup x = some ty) :
    demandWith ctx analyze x s = .ok ty s := by
  unfold demandWith
  rw [get_bind_apply]
  simp only [h]
  rfl

/-- A declaration that was refused has no type, and whoever needs it is refused
as well. There is nothing to report, as that was done where the trouble
began. -/
theorem demandWith_of_failed (hnew : s.types.lookup x = none) (hfailed : x ∈ s.failed) :
    demandWith ctx analyze x s = .error .diagnostics s := by
  unfold demandWith
  rw [get_bind_apply]
  simp only [hnew, hfailed, if_true]
  rfl

/-- **A type that is being computed cannot be had.** This is how a circle that
the schedule missed is noticed. -/
theorem demandWith_of_inProgress (hnew : s.types.lookup x = none) (hfailed : x ∉ s.failed)
    (hprogress : x ∈ s.inProgress) :
    demandWith ctx analyze x s = .error (.fatal (.internal (.reentrant x))) s := by
  unfold demandWith
  rw [get_bind_apply]
  simp only [hnew, hfailed, hprogress, if_true, if_false]
  rfl

theorem demandWith_of_undeclared (hnew : s.types.lookup x = none) (hfailed : x ∉ s.failed)
    (hprogress : x ∉ s.inProgress) (h : ctx.declarations.find? x = none) :
    demandWith ctx analyze x s = .error (.fatal (.internal (.missingType x))) s := by
  unfold demandWith
  rw [get_bind_apply]
  simp only [hnew, hfailed, hprogress, if_false, h]
  exact answer_of_missing hnew hfailed

/-- A declaration is settled when its type is asked for, if it is neither known
nor being computed. -/
theorem demandWith_of_fresh {d : Declaration} (hnew : s.types.lookup d.name = none)
    (hfailed : d.name ∉ s.failed) (hprogress : d.name ∉ s.inProgress)
    (hd : d ∈ ctx.declarations.entries) :
    demandWith ctx analyze d.name s = (analyze d >>= fun _ => answer d.name) s := by
  have hfind : ctx.declarations.find? d.name = some d :=
    Declarations.find?_eq_some_iff.mpr ⟨hd, rfl⟩
  unfold demandWith
  rw [get_bind_apply]
  simp only [hnew, hfailed, hprogress, if_false, hfind]
  rfl

/-!
## Settling

A declaration is examined in a place of its own, and afterwards the analysis
goes on where it was. What happens in between is for the examination to say, and
what is made of its end is the same for all declarations (`closing`). A report
makes the declaration one that is refused, and the analysis goes on. Anything
worse stops it.
-/

/-- The state in which the examination of a declaration begins. -/
abbrev State.enter (s : State β) (name : String) : State β :=
  { s with active := name :: s.active, scopes := s.scopes.isolated, inAscription := false }

/-- The state in which an analysis goes on that was left in `s` for the
examination of a declaration, when that has ended in `t`. -/
abbrev State.resume (s : State β) (name : String) (t : State β) : State β :=
  { t with
    scopes := s.scopes
    inAscription := s.inAscription
    active := t.active.tail
    inProgress := t.inProgress.erase name }

/-- **What settling a declaration ends in**, by what its examination ends in. -/
def closing (s : State β) (name : String) :
    EStateM.Result Halt (State β) Unit → EStateM.Result Halt (State β) Unit
  | .ok () t => .ok () (s.resume name t)
  | .error .diagnostics t => .ok () { s.resume name t with failed := t.failed ++ [name] }
  | .error (.fatal f) t => .error (.fatal f) (s.resume name t)

variable {name : String} {step : Check β Unit} {r : EStateM.Result Halt (State β) Unit}

/-- What is defined or refused is not looked at again. -/
theorem settle_of_settled (h : name ∈ s.defined ∨ name ∈ s.failed) :
    settle name step s = .ok () s := if_pos h

/-- Everything else is examined, in the outermost scope, and the way back is the
same however that ends. -/
theorem settle_of_new (h : ¬(name ∈ s.defined ∨ name ∈ s.failed)) :
    settle name step s = closing s name (step (s.enter name)) := by
  unfold settle atTopLevel
  rw [if_neg h]
  rcases step (s.enter name) with ⟨a, t⟩ | ⟨- | f, t⟩ <;> rfl

/-- What holds where the examination ends gives what holds where the analysis
goes on. -/
theorem EndsIn.closing {P Q : State β → Prop} (h : EndsIn P r)
    (hPQ : ∀ t, P t → ∀ failed, Q { s.resume name t with failed }) :
    EndsIn Q (closing s name r) := by
  rcases r with ⟨a, t⟩ | ⟨- | f, t⟩
  · exact hPQ t h t.failed
  · exact hPQ t h _
  · exact hPQ t h t.failed

theorem EndsIn.of_closing {P Q : State β → Prop} (h : EndsIn P (Analysis.closing s name r))
    (hPQ : ∀ t failed, P { s.resume name t with failed } → Q t) : EndsIn Q r := by
  rcases r with ⟨a, t⟩ | ⟨- | f, t⟩
  · exact hPQ t t.failed h
  · exact hPQ t _ h
  · exact hPQ t t.failed h

end Analysis

end Stagewise
