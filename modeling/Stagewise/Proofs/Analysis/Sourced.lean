import Stagewise.Proofs.Analysis.Congruence
import Stagewise.Proofs.Analysis.Soundness
import Stagewise.Proofs.Target.Skeleton

/-!
# Where requests come from

The text of a request is that of a target item or of an expression, which was
lowered from a term. Here it is said which: an item that declares or defines a
declaration is the one that the options ask for, with the symbol of an entry
point for the function that is one. And the term was checked somewhere, so that
what is noted of the names in it is what they referred to there: in a body that
is the top level and the parameters, and in an ascription any place at all.

A request of this kind is **sourced**. That all requests are holds of every
analysis, however it ends (`sourced_analyzeWithin`). It is an invariant and is
carried through the checking of trees as a congruence, with the typing rules for
what is known of the results.
-/

namespace Stagewise

/-- The environment of the top level. -/
def Env.topLevel (names : List String) : Env :=
  fun x => if x ∈ names then some (.global x) else none

/-- **In the outermost scope, names refer to the declarations of the module**,
whatever was in scope before. -/
theorem Scopes.Faithful.resolve_isolated {names : List String} {c : Scopes}
    (h : c.Faithful names) : c.isolated.resolve = Env.topLevel names := by
  funext x
  show (if x ∈ c.topLevel then some (.global x) else none) = Env.topLevel names x
  rw [h.topLevel, Env.topLevel]

theorem Scopes.resolve_push (c : Scopes) : c.push.resolve = c.resolve := rfl

namespace Analysis

open Source (Expr Invocation)

variable {β α γ μ : Type} {ctx : Context β} {s t : State β} {c : Scopes}
  {demand : String → Check β Ty}

/-! ## Requests -/

/-- What is known of a function from outside, by the types of its parameters and
of its result. -/
def signatureOf (options : Options) (f : Source.Function) (params : List (Name × Ty))
    (result : Ty) : Target.Signature where
  name := f.name.text
  params := params.map fun (x, t) => (x.text, t)
  result
  isEntry := f.name.text = options.entryPoint

/-- **The item that declares a declaration**, and what it is made from. -/
inductive Declares (options : Options) : Declaration → Subject → Target.Item → Prop where
  | builtin (b : Builtin) : Declares options (.builtin b) (.builtin b) (.declareBuiltin b)
  | function (f : Source.Function) (params : List (Name × Ty)) (result : Ty) :
    Declares options (.source (.function f)) (.signature f.name.text)
      (.declareFunction (signatureOf options f params result))
  | constant (c : Source.Constant) (ty : Ty) :
    Declares options (.source (.constant c)) (.signature c.name.text)
      (.declareConstant c.name.text ty)

/-- **The item that defines a declaration**, what it is made from, and the
skeleton of that. An entry point has no parameters. -/
inductive Defines (options : Options) :
    Declaration → Subject → Target.Item → Skeleton (Option Binding) → Prop where
  | builtin (b : Builtin) : Defines options (.builtin b) (.builtin b) (.defineBuiltin b) .done
  | function (f : Source.Function) (params : List (Name × Ty)) (result : Ty) (body : Term.Block)
    (entry : f.name.text = options.entryPoint → params = []) :
    Defines options (.source (.function f)) (.body f.name.text body)
      (.function (signatureOf options f params result) body)
      (.params ((Local.ofParams params).map Local.declarator) body.skeleton)
  | computed (c : Source.Constant) (ty : Ty) (body : Term.Block) :
    Defines options (.source (.constant c)) (.body c.name.text body)
      (.computed c.name.text ty body) (body.valueSkeleton .done)
  | known (c : Source.Constant) (ty : Ty) (v : Value) :
    Defines options (.source (.constant c)) (.literal c.name.text v) (.known c.name.text ty v) .done

/-- **The skeleton of a definition is that of what it is made from.** -/
theorem Defines.skeleton_item {options : Options} {d : Declaration} {subject : Subject}
    {item : Target.Item} {o : Skeleton (Option Binding)} (h : Defines options d subject item o) :
    item.skeleton = o.plain := by
  cases h with
  | builtin b => rfl
  | known c ty v => exact v.skeleton_lower ty .done
  | computed c ty body => exact body.skeleton_value .done
  | function f params result body entry =>
    have hparams : params.map (fun (x, t) => (x.text, t))
        = (Local.ofParams params).map Local.declarator := by
      simp [Local.ofParams, Local.declarator]
    refine .trans ?_ (Skeleton.map_params _ _ body.skeleton).symm
    unfold Target.Item.function
    split
    · rename_i hentry
      have hname : f.name.text = options.entryPoint := of_decide_eq_true hentry
      show Skeleton.params (if (signatureOf options f params result).isEntry then [] else _)
        (Target.Stmt.skeletons (body.lower .discard ++ [.give (.int 0)]) .done) = _
      rw [if_pos hentry, Target.Stmt.skeletons_append, entry hname]
      exact body.skeleton_lower .discard
    · rename_i hentry
      show Skeleton.params (if (signatureOf options f params result).isEntry then [] else _)
        (Target.Stmt.skeletons (body.lower .give) .done) = _
      rw [if_neg hentry, body.skeleton_lower .give]
      exact congrArg (Skeleton.params · body.skeleton.plain) hparams

/-- **The item that a request about a declaration is made from**, by the kind of
the request. -/
inductive Emits (options : Options) (d : Declaration) :
    Request → Subject → Target.Item → Prop where
  | declare {subject : Subject} {item : Target.Item} (declares : Declares options d subject item) :
    Emits options d .declare subject item
  | define {subject : Subject} {item : Target.Item} {o : Skeleton (Option Binding)}
    (defines : Defines options d subject item o) : Emits options d .define subject item

/-- **A request tells of a declaration**: its text is that of an item that
declares or defines it, and is made from the declaration itself. -/
def Exchange.TellsOf (options : Options) (e : Exchange) (d : Declaration) : Prop :=
  ∃ item, Emits options d e.kind e.subject item ∧ e.text = Target.Item.text item

/-- The subject of a request about a declaration is that declaration. -/
theorem Emits.declaration?_eq {options : Options} {d : Declaration} {kind : Request}
    {subject : Subject} {item : Target.Item} (h : Emits options d kind subject item) :
    subject.declaration? = some d.name := by
  cases h with
  | declare declares => cases declares <;> rfl
  | define defines => cases defines <;> rfl

/-- **A request is sourced**: it declares or defines a declaration of the
module, or has a term evaluated that was checked somewhere, or text expanded. -/
inductive Sourced (ctx : Context β) : Exchange → Prop where
  | declare {d : Declaration} {subject : Subject} {item : Target.Item} {accepted : Bool}
    (entry : d ∈ ctx.declarations.entries) (declares : Declares ctx.options d subject item) :
    Sourced ctx ⟨.declare, item.text, subject, accepted⟩
  | define {d : Declaration} {subject : Subject} {item : Target.Item}
    {o : Skeleton (Option Binding)} {accepted : Bool} (entry : d ∈ ctx.declarations.entries)
    (defines : Defines ctx.options d subject item o)
    (bound : o.Bound (Env.topLevel ctx.declarations.names)) :
    Sourced ctx ⟨.define, item.text, subject, accepted⟩
  | evaluate {t : Term} {c : Scopes} {accepted : Bool}
    (faithful : c.Faithful ctx.declarations.names) (bound : (t.skeleton .done).Bound c.resolve) :
    Sourced ctx ⟨.evaluate, t.lower.text, .term t, accepted⟩
  | expand {m : Invocation} {expected : Ty} {binding : Binding} {accepted : Bool}
    (known : ∀ x, binding = .global x → x = m.expander.text ∧ x ∈ ctx.declarations.names) :
    Sourced ctx ⟨.evaluate, expansionText m expected, .expansion binding, accepted⟩

/-- A request that is sourced tells of a declaration, unless something is
evaluated. -/
theorem Sourced.exists_tellsOf {e : Exchange} (h : Sourced ctx e) (hkind : e.kind ≠ .evaluate) :
    ∃ d ∈ ctx.declarations.entries, e.TellsOf ctx.options d := by
  cases h with
  | declare entry declares => exact ⟨_, entry, _, .declare declares, rfl⟩
  | define entry defines bound => exact ⟨_, entry, _, .define defines, rfl⟩
  | evaluate | expand => exact absurd rfl hkind

/-- **All requests so far are sourced**, and the scopes are faithful. -/
structure AllSourced (ctx : Context β) (s : State β) : Prop where
  faithful : s.scopes.Faithful ctx.declarations.names
  transcript : ∀ e ∈ s.transcript, Sourced ctx e

/-- Nothing was said, and the place is the same. -/
theorem AllSourced.of_eq (h : AllSourced ctx s) (scopes : t.scopes = s.scopes)
    (transcript : t.transcript = s.transcript) : AllSourced ctx t where
  faithful := scopes ▸ h.faithful
  transcript := transcript ▸ h.transcript

/-- Nothing was said, and the place is another one of the module. -/
theorem AllSourced.move (h : AllSourced ctx s) (faithful : t.scopes.Faithful ctx.declarations.names)
    (transcript : t.transcript = s.transcript) : AllSourced ctx t where
  faithful
  transcript := transcript ▸ h.transcript

/-!
## Steps

Requests are only ever added, so it is enough to look at each one when it is
made. What has to be known at that moment is where the analysis is, and that the
scopes around are those of the module. This is why the scopes are part of what
is kept (`AllSourced`).
-/

/-- **A step keeps all requests sourced**, in whatever way it ends. -/
def StaysSourced (ctx : Context β) (step : Check β α) : Prop :=
  ∀ s, AllSourced ctx s → EndsIn (AllSourced ctx) (step s)

/-- **A sequence of steps.** -/
theorem StaysSourced.bindAt {step : Check β α} {next : α → Check β γ} (h : StaysSourced ctx step)
    (hs : AllSourced ctx s)
    (hnext : ∀ a t, step s = .ok a t → AllSourced ctx t → EndsIn (AllSourced ctx) (next a t)) :
    EndsIn (AllSourced ctx) ((step >>= next) s) :=
  (h s hs).bindOk (fun _ ht => ht) hnext

/-- A step that says nothing, and stays where it is. -/
theorem sourced_of_eq {step : Check β α}
    (h : ∀ s, EndsIn (fun t => t.scopes = s.scopes ∧ t.transcript = s.transcript) (step s)) :
    StaysSourced ctx step := fun s hs => (h s).imp fun _ ht => hs.of_eq ht.1 ht.2

theorem sourced_pure (a : α) : StaysSourced ctx (pure a : Check β α) := fun _ hs => hs

theorem sourced_report (d : Diagnostic) : StaysSourced ctx (report d : Check β α) :=
  fun _ hs => hs.of_eq rfl rfl

/-- A test that has to come out false. -/
theorem AllSourced.reportIf (hs : AllSourced ctx s) {P : Prop} [Decidable P] {d : Diagnostic}
    {next : Unit → Check β α} (h : ¬P → EndsIn (AllSourced ctx) (next () s)) :
    EndsIn (AllSourced ctx) ((if P then report d >>= next else next ()) s) := by
  split
  · exact hs.of_eq rfl rfl
  · exact h ‹_›

/-- A scope is left again, and the one around it was one of the module. -/
theorem sourced_inScope {step : Check β α} (h : StaysSourced ctx step) :
    StaysSourced ctx (inScope step) := by
  intro s hs
  rw [inScope_apply]
  have hstep := h { s with scopes := s.scopes.push } ⟨hs.faithful.push, hs.transcript⟩
  exact hstep.leaving fun t ht => ⟨ht.faithful.pop, ht.transcript⟩

/-- To introduce a local leaves the outermost scope as it was. -/
theorem sourced_introduce (kind : Local.Kind) (name : Name) (ty : Ty) :
    StaysSourced ctx (introduce kind name ty) := by
  intro s hs
  cases hadd : s.scopes.add name (.lexical ⟨name, kind, ty⟩) with
  | ok scopes =>
    rw [introduce_of_ok hadd]
    exact hs.move (hs.faithful.add (fun x hx => by cases hx) hadd) rfl
  | error d =>
    rw [introduce_of_error hadd]
    exact sourced_report d s hs

/-- Keeping all requests sourced is a congruence, of one analysis with
itself. -/
theorem congruence_sourced (ctx : Context β) :
    Congruence fun {α : Type} (x _ : Check β α) => StaysSourced ctx x where
  pure := sourced_pure
  bind step next := fun _ hs => step.bindAt hs fun a t _ ht => next a t ht
  report := sourced_report
  inScope := sourced_inScope
  introduce := sourced_introduce
  capturing step := sourced_inScope fun _ hs => step.bindAt hs fun _ _ _ ht => ht

theorem sourced_expect {site : Site} {expected found : Ty} {span : Span} :
    StaysSourced ctx (expect site expected found span) :=
  (congruence_sourced ctx).expect site expected found span

/-- **A request keeps all requests sourced if it is sourced itself**, whether it
is accepted or not. -/
theorem sourced_send {kind : Request} {subject : Subject} {text : String}
    {run : β → Except Backend.Fault α × β}
    (h : ∀ accepted, Sourced ctx ⟨kind, text, subject, accepted⟩) :
    StaysSourced ctx (send kind subject text run) := by
  intro s hs
  have hasked (accepted : Bool) (b : β) :
      AllSourced ctx (s.asked ⟨kind, text, subject, accepted⟩ b) :=
    ⟨hs.faithful, List.forall_mem_append.mpr
      ⟨hs.transcript, List.forall_mem_singleton.mpr (h accepted)⟩⟩
  cases hrun : (run s.backend).1 with
  | ok a =>
    rw [send_of_ok hrun]
    exact hasked true _
  | error f =>
    rw [send_of_error hrun]
    exact hasked false _

/-- A definition that is not made says nothing. -/
theorem sourced_define {name : String} {subject : Subject} {text : String}
    (h : ∀ accepted, Sourced ctx ⟨.define, text, subject, accepted⟩) :
    StaysSourced ctx (define ctx name subject text) := by
  intro s hs
  unfold define
  refine .get_bind ?_
  split
  · exact hs
  · exact sourced_send h _ (hs.of_eq rfl rfl)

/-! ## Names, ascriptions and expansions -/

/-- To look up a name says nothing but what asking for its type leads to. -/
theorem sourced_typeOf (h : ∀ x, StaysSourced ctx (demand x)) (name : Name) :
    StaysSourced ctx (typeOf demand name) := by
  intro s hs
  cases hget : s.scopes.get name.text with
  | none =>
    rw [typeOf_of_none hget]
    exact sourced_report _ s hs
  | some found =>
    obtain ⟨binding, scopes⟩ := found
    have hfound : AllSourced ctx (s.found name.text binding scopes) :=
      hs.move (hs.faithful.get hget).1 rfl
    cases binding with
    | lexical l =>
      rw [typeOf_of_lexical hget]
      exact hfound
    | global x =>
      rw [typeOf_of_global hget]
      exact (h x).bindAt hfound fun ty t _ ht => ht

/-- **A term that is evaluated was checked in a place of the module.** Its names
are noted with what they referred to there, which is what it takes for the
request to be sourced. -/
theorem sourced_evaluate {e : Term} (hs : AllSourced ctx s) (hc : c.Faithful ctx.declarations.names)
    (h : (e.skeleton .done).Bound c.resolve) :
    EndsIn (AllSourced ctx) (evaluate ctx e s) := by
  cases hearly : e.globals.find? (· ∉ s.defined) with
  | some x =>
    rw [evaluate_of_early hearly]
    exact hs
  | none =>
    rw [evaluate_of_defined hearly]
    refine (sourced_send fun _ => .evaluate hc h).bindAt hs fun d t _ ht => ?_
    unfold decoded
    cases Value.decode [] d with
    | ok v => exact ht
    | error cause => exact ht

/-- **An ascription**, which may have to be evaluated. -/
theorem sourced_ascribed {step : Check β Term} {span : Span} (h : StaysSourced ctx step)
    (hyields : ∀ s c, At c s → Proceeds ctx s (Yields c) (step s)) :
    StaysSourced ctx (ascribed ctx span step) := by
  intro s hs
  rw [ascribed_eq]
  have hin : StaysSourced ctx (inAscription step) := by
    intro s hs
    rw [inAscription_apply]
    have hstep := h { s with inAscription := true } ⟨hs.faithful, hs.transcript⟩
    exact hstep.leaving fun t ht => ⟨ht.faithful, ht.transcript⟩
  refine hin.bindAt hs fun e t ht hts => ?_
  -- what was checked obeys the rules in the scopes where that began
  have hproceeds : Proceeds ctx s (Yields s.scopes.bare) (inAscription step s) :=
    .inAscription (fun _ _ _ h => h) (hyields _ _ rfl)
  have htyped := (hproceeds.of_eq_ok ht).2.2
  rw [Scopes.resolve_bare] at htyped
  refine sourced_expect.bindAt hts fun _ u _ hu => ?_
  have hfolded : StaysSourced ctx (folded ctx e) := sourced_of_eq fun _ => ⟨rfl, rfl⟩
  refine hfolded.bindAt hu fun v w _ hw => ?_
  have hvalue : EndsIn (AllSourced ctx) ((v.elim (evaluate ctx e) pure : Check β Value) w) := by
    cases v with
    | none => exact sourced_evaluate hw hs.faithful (htyped.bound trivial)
    | some v => exact hw
  refine hvalue.bindOk (fun _ h => h) fun v x _ hx => ?_
  cases v <;> exact hx

/-- **What the checking of trees leaves to others** keeps all requests
sourced. -/
theorem corresponds_sourced {expand : Span → μ → Option Ty → Check β Term}
    (hprovides : Provides ctx demand expand) (hdemand : ∀ x, StaysSourced ctx (demand x))
    (hexpand : ∀ span m hint, StaysSourced ctx (expand span m hint)) :
    Corresponds (fun {α : Type} (x _ : Check β α) => StaysSourced ctx x) ctx ctx demand demand
      expand expand where
  typeOf := sourced_typeOf hdemand
  ascribed e step := sourced_ascribed step fun _ _ hs => infer_proceeds hprovides hs e _
  expand := hexpand

/-- **An expander is run by the name that was looked up.** -/
theorem sourced_expansion {m : Invocation} {expected : Ty} {binding : Binding}
    (h : ∀ x, binding = .global x → x = m.expander.text ∧ x ∈ ctx.declarations.names) :
    StaysSourced ctx (expansion ctx binding (expansionText m expected)) := by
  intro s hs
  cases hget : s.cache.get? (expansionText m expected) with
  | some d =>
    rw [expansion_of_known hget]
    exact hs.of_eq rfl rfl
  | none =>
    rw [expansion_of_unknown hget]
    exact (sourced_send fun _ => .expand h).bindAt hs fun d t _ ht => ht.of_eq rfl rfl

/-- Text is expanded in the place of an invocation. -/
theorem sourced_expand (hdemands : Demands ctx demand) (h : ∀ x, StaysSourced ctx (demand x))
    (span : Span) (m : Invocation) (hint : Option Ty) :
    StaysSourced ctx (expand ctx demand span m hint) := by
  intro s hs
  unfold expand
  refine (sourced_typeOf h m.expander).bindAt hs fun out t ht hts => ?_
  obtain ⟨binding, ty⟩ := out
  have hplace : At s.scopes.bare s := rfl
  have hresolve := ((typeOf_proceeds hdemands hplace m.expander).of_eq_ok ht).2.2.1
  rw [Scopes.resolve_bare] at hresolve
  have hknown : ∀ x, binding = .global x →
      x = m.expander.text ∧ x ∈ ctx.declarations.names := by
    rintro x rfl
    exact hs.faithful.eq_of_resolve hresolve
  refine sourced_expect.bindAt hts fun _ u _ hu => ?_
  suffices hrun : EndsIn (AllSourced ctx)
      ((expansion ctx binding (expansionText m (hint.getD .nil)) >>= _) u) by
    cases binding with
    | lexical l => exact hrun
    | global x =>
      refine .get_bind ?_
      split
      · exact hu
      · exact hrun
  refine (sourced_expansion hknown).bindAt hu fun d v _ hv => ?_
  cases Expansion.decode [hint.getD .nil] span d with
  | error cause => exact sourced_report _ v hv
  | ok result =>
    have hexpanded : StaysSourced ctx (inferExpanded ctx demand result.2 hint) :=
      (congruence_sourced ctx).infer
        (corresponds_sourced ⟨hdemands, fun _ _ _ m => m.elim⟩ h fun _ m => m.elim) result.2 hint
    exact hv.reportIf fun _ => hexpanded v hv

/-!
## Declarations

The item is put together at the end, from parts that were found at different
times: the types of parameters and result when they were ascribed, and the body
when it was checked. For each part it is known where it was found. What makes
the request sourced is that all of these are of one declaration, and that its
examination began at the top level.
-/

/-- A built-in is declared and defined by its own two items. -/
theorem sourced_examineBuiltin {b : Builtin} (entry : .builtin b ∈ ctx.declarations.entries) :
    StaysSourced ctx (examineBuiltin ctx b) := by
  intro s hs
  unfold examineBuiltin
  have hdeclare : StaysSourced ctx (declare ctx (.builtin b) (Target.Item.declareBuiltin b).text) :=
    sourced_send fun _ => .declare entry (.builtin b)
  have hdefine : StaysSourced ctx
      (define ctx b.name (.builtin b) (Target.Item.defineBuiltin b).text) :=
    sourced_define fun _ => .define entry (.builtin b) trivial
  refine hdeclare.bindAt hs fun _ t _ ht => hdefine.bindAt ht fun _ u _ hu => ?_
  cases b.alias? <;> exact hu.of_eq rfl rfl

section Examine

variable (hdemands : Demands ctx demand) (h : ∀ x, StaysSourced ctx (demand x))
include hdemands h

/-- What the checking of trees leaves to others, where text can be expanded. -/
theorem corresponds_sourced_expand :
    Corresponds (fun {α : Type} (x _ : Check β α) => StaysSourced ctx x) ctx ctx demand demand
      (expand ctx demand) (expand ctx demand) :=
  corresponds_sourced (provides_expand hdemands) h (sourced_expand hdemands h)

theorem sourced_ascribedSource (e : Expr Invocation) :
    StaysSourced ctx (ascribed ctx e.span (infer ctx demand (expand ctx demand) e (some .type))) :=
  (corresponds_sourced_expand hdemands h).ascribed e
    ((congruence_sourced ctx).infer (corresponds_sourced_expand hdemands h) e _)

omit h in
/-- **A body obeys the rules**, with the parameters in scope. -/
theorem body_proceeds (hs : At c s) (params : List (Name × Ty)) (b : Source.Block Invocation)
    (hint : Option Ty) :
    Proceeds ctx s
      (fun t body => At c t ∧
        body.Typed (Published t) ((Local.ofParams params).foldl Env.bind c.resolve))
      (inScope (introduceParams params >>= fun _ =>
        checkBlock ctx demand (expand ctx demand) b hint) s) := by
  refine .inScope hs (fun _ _ _ h => h) fun t ht => ?_
  refine .bind (.introduceParams params ht (Scopes.inside_push c)) ?_
  rintro - u - ⟨d, hd, hinside, henv⟩
  refine (checkBlock_proceeds (provides_expand hdemands) hd b hint).imp ?_
  rintro v body - ⟨hv, hbody⟩
  rw [henv, Scopes.resolve_push] at hbody
  exact ⟨⟨d, hv, hinside⟩, hbody⟩

/-- The body of a declaration is checked with its parameters in scope. -/
theorem sourced_body (params : List (Name × Ty)) (b : Source.Block Invocation) (hint : Option Ty) :
    StaysSourced ctx (inScope (introduceParams params >>= fun _ =>
      checkBlock ctx demand (expand ctx demand) b hint)) :=
  sourced_inScope fun _ hs =>
    StaysSourced.bindAt ((congruence_sourced ctx).introduceParams params) hs fun _ t _ ht =>
      (congruence_sourced ctx).checkBlock (corresponds_sourced_expand hdemands h) b hint t ht

/-- **A function**, examined at the top level. -/
theorem allSourced_examineFunction {f : Source.Function}
    (entry : .source (.function f) ∈ ctx.declarations.entries) (hs : AllSourced ctx s)
    (htop : s.scopes.resolve = Env.topLevel ctx.declarations.names) :
    EndsIn (AllSourced ctx) (examineFunction ctx demand f s) := by
  have hprovides := provides_expand hdemands
  unfold examineFunction
  have hmark : StaysSourced ctx (mark (β := β) f.name.text) := fun _ hs => hs.of_eq rfl rfl
  refine hmark.bindAt hs fun _ t ht hts => ?_
  cases ht
  have hplace : At s.scopes.bare { s with inProgress := s.inProgress.insert f.name.text } := rfl
  have hparams : StaysSourced ctx (inferParams ctx demand (expand ctx demand) f.params) :=
    (congruence_sourced ctx).inferParams (corresponds_sourced_expand hdemands h) f.params
  refine hparams.bindAt hts fun params u hu hus => ?_
  replace hplace := ((inferParams_proceeds hprovides hplace f.params).of_eq_ok hu).2
  refine (sourced_ascribedSource hdemands h f.result).bindAt hus fun result v hv hvs => ?_
  replace hplace := ((ascribed_proceeds hplace fun u hu =>
    infer_proceeds hprovides hu f.result _).of_eq_ok hv).2
  -- the type is published, and the function declared
  have hpublish : StaysSourced ctx (publish (β := β) f.name.text
      (.functionOf (params.map (·.2)) result)) := fun _ hs => hs.of_eq rfl rfl
  refine hpublish.bindAt hvs fun _ w hw hws => ?_
  cases hw
  have hunmark : StaysSourced ctx (unmark (β := β) f.name.text) := fun _ hs => hs.of_eq rfl rfl
  refine hunmark.bindAt hws fun _ w hw hws => ?_
  cases hw
  have hdeclare : StaysSourced ctx (declare ctx (.signature f.name.text)
      (Target.Item.declareFunction (signatureOf ctx.options f params result)).text) :=
    sourced_send fun _ => .declare entry (.function f params result)
  refine hdeclare.bindAt hws fun _ x hx hxs => ?_
  replace hplace : At s.scopes.bare x := by
    rw [(declare_proceeds.of_eq_ok hx).2]
    exact hplace
  -- the body is checked at the top level, with the parameters in scope
  refine (sourced_body hdemands h params f.body (some result)).bindAt hxs fun body y hy hys => ?_
  have hbody := ((body_proceeds hdemands hplace params f.body (some result)).of_eq_ok hy).2.2
  rw [Scopes.resolve_bare, htop] at hbody
  refine sourced_expect.bindAt hys fun _ z _ hzs => ?_
  refine hzs.reportIf fun hentry => ?_
  refine sourced_define (fun _ => .define entry (.function f params result body fun hname => ?_) ?_)
    z hzs
  · -- an entry point of another type has been reported
    have hty : Ty.functionOf (params.map (·.2)) result = .entryPoint := by
      by_contra hne
      exact hentry ⟨decide_eq_true hname, hne⟩
    have hboth : params = [] ∧ result = .unit := by simpa [Ty.functionOf, Ty.entryPoint] using hty
    exact hboth.1
  · exact Term.bound_params hbody.boundStmts.bound

/-- **A constant**, examined at the top level. -/
theorem allSourced_examineConstant {const : Source.Constant}
    (entry : .source (.constant const) ∈ ctx.declarations.entries) (hs : AllSourced ctx s)
    (htop : s.scopes.resolve = Env.topLevel ctx.declarations.names) :
    EndsIn (AllSourced ctx) (examineConstant ctx demand const s) := by
  have hprovides := provides_expand hdemands
  unfold examineConstant
  have hmark : StaysSourced ctx (mark (β := β) const.name.text) := fun _ hs => hs.of_eq rfl rfl
  refine hmark.bindAt hs fun _ t ht hts => ?_
  cases ht
  have hplace : At s.scopes.bare { s with inProgress := s.inProgress.insert const.name.text } := rfl
  refine (sourced_ascribedSource hdemands h const.ascription).bindAt hts fun ty u hu hus => ?_
  replace hplace := ((ascribed_proceeds hplace fun u hu =>
    infer_proceeds hprovides hu const.ascription _).of_eq_ok hu).2
  have hdeclare : StaysSourced ctx (declare ctx (.signature const.name.text)
      (Target.Item.declareConstant const.name.text ty).text) :=
    sourced_send fun _ => .declare entry (.constant const ty)
  refine hdeclare.bindAt hus fun _ v hv hvs => ?_
  replace hplace : At s.scopes.bare v := by
    rw [(declare_proceeds.of_eq_ok hv).2]
    exact hplace
  refine (sourced_body hdemands h [] const.body (some ty)).bindAt hvs fun body w hw hws => ?_
  have hbody := ((body_proceeds hdemands hplace [] const.body (some ty)).of_eq_ok hw).2.2
  rw [Scopes.resolve_bare, htop] at hbody
  refine sourced_expect.bindAt hws fun _ x _ hxs => ?_
  have hfolded : StaysSourced ctx (foldedBlock ctx body) := sourced_of_eq fun _ => ⟨rfl, rfl⟩
  refine hfolded.bindAt hxs fun value y _ hys => ?_
  cases value with
  | some v =>
    refine (sourced_define fun _ => .define entry (.known const ty v) trivial).bindAt hys
      fun _ z _ hzs => ?_
    exact hzs.of_eq rfl rfl
  | none =>
    have hbound : (body.valueSkeleton .done).Bound (Env.topLevel ctx.declarations.names) :=
      hbody.boundStmts.boundValue trivial
    refine (sourced_define fun _ => .define entry (.computed const ty body) hbound).bindAt hys
      fun _ z _ hzs => ?_
    exact hzs.of_eq rfl rfl

theorem allSourced_examine {d : Declaration} (entry : d ∈ ctx.declarations.entries)
    (hs : AllSourced ctx s)
    (htop : s.scopes.resolve = Env.topLevel ctx.declarations.names) :
    EndsIn (AllSourced ctx) (examine ctx demand d s) := by
  rcases d with b | f | c
  · exact sourced_examineBuiltin entry s hs
  · exact allSourced_examineFunction hdemands h entry hs htop
  · exact allSourced_examineConstant hdemands h entry hs htop

end Examine

/-! ## On demand -/

/-- **Settling a declaration**, which is examined at the top level. -/
theorem sourced_settle {name : String} {step : Check β Unit}
    (h : ∀ s, AllSourced ctx s → s.scopes.resolve = Env.topLevel ctx.declarations.names →
      EndsIn (AllSourced ctx) (step s)) : StaysSourced ctx (settle name step) := by
  intro s hs
  by_cases hsettled : name ∈ s.defined ∨ name ∈ s.failed
  · rw [settle_of_settled hsettled]
    exact hs
  · rw [settle_of_new hsettled]
    have hstep := h (s.enter name) ⟨hs.faithful.isolated, hs.transcript⟩
      hs.faithful.resolve_isolated
    exact hstep.closing fun t ht failed => ⟨hs.faithful, ht.transcript⟩

/-- To answer for a declaration says nothing. -/
theorem sourced_answer (x : String) : StaysSourced ctx (answer (β := β) x) := by
  intro s hs
  cases hnew : s.types.lookup x with
  | some ty =>
    rw [answer_of_published hnew]
    exact hs
  | none =>
    by_cases hfailed : x ∈ s.failed
    · rw [answer_of_failed hnew hfailed]
      exact hs
    · rw [answer_of_missing hnew hfailed]
      exact hs

/-- **Asking for types** keeps all requests sourced if settling declarations
does. -/
theorem sourced_demandWith {analyze : Declaration → Check β Unit}
    (h : ∀ d ∈ ctx.declarations.entries, StaysSourced ctx (analyze d)) (x : String) :
    StaysSourced ctx (demandWith ctx analyze x) := by
  intro s hs
  cases asked ctx s x with
  | published hty =>
    rw [demandWith_of_published hty]
    exact hs
  | failed hnew hfailed =>
    rw [demandWith_of_failed hnew hfailed]
    exact hs
  | inProgress hnew hfailed hprogress =>
    rw [demandWith_of_inProgress hnew hfailed hprogress]
    exact hs
  | undeclared hnew hfailed hprogress hfind =>
    rw [demandWith_of_undeclared hnew hfailed hprogress hfind]
    exact hs
  | fresh hd hnew hfailed hprogress =>
    rw [demandWith_of_fresh hnew hfailed hprogress hd]
    exact (h _ hd).bindAt hs fun _ t _ ht => sourced_answer _ t ht

/-- **Settling declarations** keeps all requests sourced, however deep it
goes. -/
theorem sourced_analyzeWithin (depth : Nat) {d : Declaration} (hd : d ∈ ctx.declarations.entries) :
    StaysSourced ctx (analyzeWithin ctx depth d) := by
  induction depth generalizing d with
  | zero => exact fun _ hs => hs
  | succ depth ih =>
    have hdemands : Demands ctx (demandWith ctx (analyzeWithin ctx depth)) :=
      (provides_demandWith ctx depth).demands
    exact sourced_settle fun s hs htop =>
      allSourced_examine hdemands (sourced_demandWith fun d hd => ih hd) hd hs htop

end Analysis

end Stagewise
