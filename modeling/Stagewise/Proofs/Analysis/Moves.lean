import Stagewise.Proofs.Analysis.Congruence
import Stagewise.Proofs.Analysis.Settle

/-!
# What steps do to the state

Of all that a state consists of, a step changes little. What it does to the rest
can be said as a relation between the state in which it begins and the one in
which it ends, in whatever way it ends: the step **moves** by the relation
(`Moves`).

Trees are checked by few kinds of change. The analysis goes to another place and
comes back, and writes down what it has found; it has terms evaluated and text
expanded; and it asks for the types of declarations. A relation **carries** the
checking of trees (`Carries`) if it allows the first two, one after the other.
Then every tree is checked by moves, wherever types are asked for by moves. What
declarations are about, and how they are marked while they are under analysis,
is left to the relation.
-/

namespace Stagewise.Analysis

open Source (Expr Invocation Param)

variable {β α γ μ : Type} {ctx : Context β} {R : State β → State β → Prop} {s t : State β}
  {demand : String → Check β Ty}

/-- **A step moves by a relation**, wherever it begins and however it ends. -/
def Moves (R : State β → State β → Prop) (step : Check β α) : Prop := ∀ s, EndsIn (R s) (step s)

/-- **A relation carries the checking of trees.** -/
structure Carries (ctx : Context β) (R : State β → State β → Prop) : Prop where
  refl (s : State β) : R s s
  trans {s t u : State β} : R s t → R t u → R s u
  /-- Scopes may change, and what the analysis writes down of names and of what
  it folds and reports. -/
  quiet (s : State β) (scopes : Scopes) (reports : List Report) (resolutions : List Resolution)
    (moments : List Moment) (foldings : List (Term × Value)) :
    R s { s with scopes, reports, resolutions, moments, foldings }
  inAscription {s t : State β} (h : R { s with inAscription := true } t) :
    R s { t with inAscription := s.inAscription }
  evaluate (e : Term) :
    Moves R (send .evaluate (.term e) e.lower.text (ctx.backend.evaluate e.lower.text))
  expansion (binding : Binding) (text : String) : Moves R (expansion ctx binding text)

/-- A change of the state comes before everything else that is done. -/
theorem EndsIn.modify_bind {P : State β → Prop} {f : State β → State β} {next : Unit → Check β α}
    (h : EndsIn P (next () (f s))) : EndsIn P ((modify f >>= next) s) := h

/-- The state after the backend was asked to define a declaration. -/
def State.toldOf (s : State β) (x : String) (said : Exchange) (b : β) : State β :=
  { s.asked said b with defined := s.defined ++ [x] }

section

variable {x text : String} {subject : Subject}

/-- A definition that is accepted adds the declaration and the request, and
nothing else. -/
theorem define_of_accepted (hnew : x ∉ s.defined)
    (hrun : (ctx.backend.define text s.backend).1 = .ok ()) :
    define ctx x subject text s = .ok ()
      (s.toldOf x ⟨.define, text, subject, true⟩ (ctx.backend.define text s.backend).2) :=
  (define_of_not_mem ctx hnew subject text).trans (send_of_ok hrun)

/-- So does one that is refused. The declaration counts as defined all the same,
and is never told to the backend again. -/
theorem define_of_refused {f : Backend.Fault} (hnew : x ∉ s.defined)
    (hrun : (ctx.backend.define text s.backend).1 = .error f) :
    define ctx x subject text s = .error (.fatal (.backend f))
      (s.toldOf x ⟨.define, text, subject, false⟩ (ctx.backend.define text s.backend).2) :=
  (define_of_not_mem ctx hnew subject text).trans (send_of_error hrun)

/-- **What a definition ends in.** What is defined already is not defined
again. -/
theorem EndsIn.define {P : State β → Prop} (hs : P s) (h : x ∉ s.defined → ∀ accepted, P (s.toldOf x
      ⟨.define, text, subject, accepted⟩ (ctx.backend.define text s.backend).2)) :
    EndsIn P (define ctx x subject text s) := by
  by_cases hx : x ∈ s.defined
  · rw [define_of_mem ctx hx]
    exact hs
  · cases hrun : (ctx.backend.define text s.backend).1 with
    | ok _ =>
      rw [define_of_accepted hx hrun]
      exact h hx true
    | error f =>
      rw [define_of_refused hx hrun]
      exact h hx false

/-- **A request** moves by a relation, if being accepted and being refused
do. -/
theorem moves_send {kind : Request} {run : β → Except Backend.Fault α × β} (h : ∀ s accepted,
      R s (s.asked ⟨kind, text, subject, accepted⟩ (run s.backend).2)) :
    Moves R (send kind subject text run) := by
  intro s
  cases hrun : (run s.backend).1 with
  | ok a =>
    rw [send_of_ok hrun]
    exact h s true
  | error f =>
    rw [send_of_error hrun]
    exact h s false

end

/-- **What settling a declaration ends in**, if its examination ends in
something. -/
theorem EndsIn.settle {P Q : State β → Prop} {name : String} {step : Check β Unit} (hs : P s)
    (h : ¬(name ∈ s.defined ∨ name ∈ s.failed) → EndsIn Q (step (s.enter name)))
    (hQP : ∀ t, Q t → ∀ failed, P { s.resume name t with failed }) :
    EndsIn P (settle name step s) := by
  by_cases hsettled : name ∈ s.defined ∨ name ∈ s.failed
  · rw [settle_of_settled hsettled]
    exact hs
  · rw [settle_of_new hsettled]
    exact (h hsettled).closing hQP

namespace Carries

variable (h : Carries ctx R)
include h

/-!
## Steps

Everything that is done to check a tree is built from few steps, put one after
the other. A relation that is transitive and allows each of them allows the
whole. This is the argument that all of the following lemmas make, and
`Congruence` is there to make it once for all kinds of trees.
-/

/-- **A step on the way**: what it comes to is related to where the way
began. -/
theorem bindAt {P : State β → Prop} {step : Check β α} {next : α → Check β γ} (hst : R s t)
    (hstep : Moves R step) (himp : ∀ u, R s u → P u)
    (hnext : ∀ a u, R s u → EndsIn P (next a u)) : EndsIn P ((step >>= next) t) :=
  ((hstep t).imp fun _ => h.trans hst).bindOk himp fun a u _ => hnext a u

/-- Steps that move by a relation do so one after the other. -/
theorem bind {step : Check β α} {next : α → Check β γ} (hstep : Moves R step)
    (hnext : ∀ a, Moves R (next a)) : Moves R (step >>= next) := fun s =>
  h.bindAt (h.refl s) hstep (fun _ hu => hu) fun a u hu => (hnext a u).imp fun _ => h.trans hu

theorem pure (a : α) : Moves R (pure a : Check β α) := h.refl

theorem report (d : Diagnostic) : Moves R (report d : Check β α) := fun s =>
  h.quiet s s.scopes _ s.resolutions s.moments s.foldings

/-- To go to another place is a move. -/
theorem place (s : State β) (scopes : Scopes) : R s { s with scopes } :=
  h.quiet s scopes s.reports s.resolutions s.moments s.foldings

/-- **A scope is entered and left again.** What is done inside begins and ends
in another place than what is done around it. -/
theorem inScope {step : Check β α} (hstep : Moves R step) : Moves R (inScope step) := by
  intro s
  rw [inScope_apply]
  exact (hstep _).leaving fun t ht => h.trans (h.trans (h.place s _) ht) (h.place t _)

/-- A local is introduced, or its name is taken and this is reported. -/
theorem introduce (kind : Local.Kind) (name : Name) (ty : Ty) :
    Moves R (introduce kind name ty) := by
  intro s
  cases hadd : s.scopes.add name (.lexical ⟨name, kind, ty⟩) with
  | ok scopes =>
    rw [introduce_of_ok hadd]
    exact h.place s scopes
  | error d =>
    rw [introduce_of_error hadd]
    exact h.report d s

/-- Moving by a relation is a congruence, of one analysis with itself. -/
theorem congruence : Congruence fun {α : Type} (x _ : Check β α) => Moves R x where
  pure := h.pure
  bind step next := h.bind step next
  report := h.report
  inScope := h.inScope
  introduce := h.introduce
  capturing step := h.inScope (h.bind step fun _ => h.refl)

theorem expect (site : Site) (expected found : Ty) (span : Span) :
    Moves R (expect site expected found span) := h.congruence.expect site expected found span

theorem reportIf {P : Prop} [Decidable P] {d : Diagnostic} {next : Unit → Check β α}
    (hnext : Moves R (next ())) :
    Moves R (if P then Analysis.report d >>= next else next ()) :=
  h.congruence.reportIf (g := next) hnext

/-! ## Names, ascriptions and expansions -/

/-- **A name is looked up.** It is written down what it refers to, and if that
is a declaration then its type is asked for. -/
theorem typeOf (hdemand : ∀ x, Moves R (demand x)) (name : Name) :
    Moves R (typeOf demand name) := by
  intro s
  cases hget : s.scopes.get name.text with
  | none =>
    rw [typeOf_of_none hget]
    exact h.report _ s
  | some found =>
    obtain ⟨binding, scopes⟩ := found
    have hfound : R s (s.found name.text binding scopes) :=
      h.quiet s scopes s.reports _ _ s.foldings
    -- the type of a local is at hand, and that of a declaration is asked for
    cases binding with
    | lexical l =>
      rw [typeOf_of_lexical hget]
      exact hfound
    | global x =>
      rw [typeOf_of_global hget]
      exact h.bindAt hfound (hdemand x) (fun _ ht => ht) fun _ _ ht => ht

/-- A term is evaluated if all it refers to is defined, and otherwise nothing
happens but that this is a defect. -/
theorem evaluateTerm (e : Term) : Moves R (Analysis.evaluate ctx e) := by
  intro s
  cases hearly : e.globals.find? (· ∉ s.defined) with
  | some x =>
    rw [evaluate_of_early hearly]
    exact h.refl s
  | none =>
    rw [evaluate_of_defined hearly]
    refine h.bindAt (h.refl s) (h.evaluate e) (fun _ ht => ht) fun d t ht => ?_
    unfold decoded
    cases Value.decode [] d with
    | ok v => exact ht
    | error cause => exact ht

theorem foldedBlock (b : Term.Block) : Moves R (foldedBlock ctx b) := fun s =>
  h.quiet s s.scopes s.reports s.resolutions _ s.foldings

theorem ascription {step : Check β α} (hstep : Moves R step) :
    Moves R (Analysis.inAscription step) := by
  intro s
  rw [inAscription_apply]
  exact (hstep _).leaving fun t ht => h.inAscription ht

theorem folded (e : Term) : Moves R (folded ctx e) := fun s =>
  h.quiet s s.scopes s.reports s.resolutions _ _

/-- **An ascription**, which may have to be evaluated. -/
theorem ascribed {step : Check β Term} (span : Span) (hstep : Moves R step) :
    Moves R (ascribed ctx span step) := by
  rw [ascribed_eq]
  refine h.bind (h.ascription hstep) fun e => h.bind (h.expect .plain .type e.ty span) fun _ => ?_
  refine h.bind (h.folded e) fun v => h.bind ?_ fun v => ?_
  · cases v with
    | none => exact h.evaluateTerm e
    | some v => exact h.refl
  · cases v <;> exact h.refl

/-- **What the checking of trees leaves to others** moves by the relation. -/
theorem corresponds {expand : Span → μ → Option Ty → Check β Term}
    (hdemand : ∀ x, Moves R (demand x)) (hexpand : ∀ span m hint, Moves R (expand span m hint)) :
    Corresponds (fun {α : Type} (x _ : Check β α) => Moves R x) ctx ctx demand demand
      expand expand where
  typeOf := h.typeOf hdemand
  ascribed e step := h.ascribed e.span step
  expand := hexpand

/-- **Text is expanded** by requests, or it is known what an expander returned
before. -/
theorem expandsAlike :
    ExpandsAlike (fun {α : Type} (x _ : Check β α) => Moves R x) ctx ctx where
  defined d e x y next s := by
    by_cases hd : d ∈ s.defined
    · rw [defined_of_mem hd]
      exact next s
    · rw [defined_of_not_mem hd]
      exact h.refl s
  expansion := h.expansion

theorem expand (hdemand : ∀ x, Moves R (demand x)) (span : Span) (m : Invocation)
    (hint : Option Ty) : Moves R (expand ctx demand span m hint) :=
  @Congruence.expand β _ ctx ctx demand demand h.congruence h.expandsAlike (h.typeOf hdemand)
    (fun e hint => h.congruence.infer (h.corresponds hdemand fun _ m => m.elim) e hint) span m hint

/-! ## Trees of the source -/

section

variable (hdemand : ∀ x, Moves R (demand x))
include hdemand

/-- **Every expression is checked by moves.** No property of the expression is
used: the induction on it is the one that `Congruence.infer` makes, with the
relation for both analyses. -/
theorem infer (e : Expr Invocation) (hint : Option Ty) :
    Moves R (infer ctx demand (Analysis.expand ctx demand) e hint) :=
  h.congruence.infer (h.corresponds hdemand (h.expand hdemand)) e hint

theorem inferParams (params : List (Param (Expr Invocation))) :
    Moves R (inferParams ctx demand (Analysis.expand ctx demand) params) :=
  h.congruence.inferParams (h.corresponds hdemand (h.expand hdemand)) params

theorem ascribedSource (e : Expr Invocation) :
    Moves R (Analysis.ascribed ctx e.span
      (Analysis.infer ctx demand (Analysis.expand ctx demand) e (some .type))) :=
  h.ascribed e.span (h.infer hdemand e _)

/-- **A body**, with parameters in scope. -/
theorem body (params : List (Name × Ty)) (b : Source.Block Invocation) (hint : Option Ty) :
    Moves R (Analysis.inScope (introduceParams params >>= fun _ =>
      checkBlock ctx demand (Analysis.expand ctx demand) b hint)) :=
  h.inScope (h.bind (h.congruence.introduceParams params) fun _ =>
    h.congruence.checkBlock (h.corresponds hdemand (h.expand hdemand)) b hint)

end

/-!
## On demand

The analysis of a declaration asks for the types of others, which are then
analyzed first. The recursion is cut off at a depth, and it is the depth that
the induction is on. What has to be shown of a declaration may thus assume that
asking for types moves by the relation, whatever the asking leads to.
-/

/-- **Asking for types** moves by a relation, if settling declarations does
whose types are neither being computed nor known. -/
theorem demandWith {analyze : Declaration → Check β Unit}
    (hanalyze : ∀ d ∈ ctx.declarations.entries, ∀ s, d.name ∉ s.inProgress →
      s.types.lookup d.name = none → EndsIn (R s) (analyze d s)) (x : String) :
    Moves R (demandWith ctx analyze x) := by
  intro s
  cases asked ctx s x with
  | published hty =>
    rw [demandWith_of_published hty]
    exact h.refl s
  | failed hnew hfailed =>
    rw [demandWith_of_failed hnew hfailed]
    exact h.refl s
  | inProgress hnew hfailed hprogress =>
    rw [demandWith_of_inProgress hnew hfailed hprogress]
    exact h.refl s
  | undeclared hnew hfailed hprogress hfind =>
    rw [demandWith_of_undeclared hnew hfailed hprogress hfind]
    exact h.refl s
  | @fresh d hd hnew hfailed hprogress =>
    rw [demandWith_of_fresh hnew hfailed hprogress hd]
    refine (hanalyze d hd s hprogress hnew).bindOk (fun _ ht => ht) fun _ t _ ht => ?_
    have hanswer : EndsIn (· = t) (answer d.name t) := by
      cases hty : t.types.lookup d.name with
      | some ty =>
        rw [answer_of_published hty]
        rfl
      | none =>
        by_cases hfailed : d.name ∈ t.failed
        · rw [answer_of_failed hty hfailed]
          rfl
        · rw [answer_of_missing hty hfailed]
          rfl
    exact hanswer.imp fun _ heq => heq ▸ ht

/-- **However deep an analysis goes**, it moves by a relation, if declarations
are settled by moves wherever types are asked for by moves. Where a declaration
may be entered is left open, except that it may be where its type is neither
being computed nor known. -/
theorem analyzeWithin {Open : String → State β → Prop}
    (hopen : ∀ x s, x ∉ s.inProgress → s.types.lookup x = none → Open x s)
    (hsettle : ∀ d ∈ ctx.declarations.entries, ∀ demand, (∀ x, Moves R (demand x)) →
      ∀ s, Open d.name s → EndsIn (R s) (Analysis.settle d.name (examine ctx demand d) s))
    (depth : Nat) : ∀ d ∈ ctx.declarations.entries, ∀ s, Open d.name s →
      EndsIn (R s) (Analysis.analyzeWithin ctx depth d s) := by
  induction depth with
  | zero => exact fun _ _ s _ => h.refl s
  | succ depth ih =>
    refine fun d hd s hs => hsettle d hd _ (h.demandWith fun d hd s hfree hnew => ?_) s hs
    exact ih d hd s (hopen d.name s hfree hnew)

end Carries

end Stagewise.Analysis
