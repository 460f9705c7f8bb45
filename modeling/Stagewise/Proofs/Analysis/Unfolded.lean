import Stagewise.Proofs.Analysis.Congruence
import Stagewise.Proofs.Analysis.Settle
import Stagewise.Proofs.Analysis.Soundness
import Stagewise.Proofs.Term.Globals

/-!
# Analyses with and without folding

An analysis may fold ascriptions or have all of them evaluated. It makes other
requests then, and knows values of constants or does not, but if the backend
evaluates ascriptions to what they fold to then there is no other difference.
The two analyses are **twins** (`Twins`): step by step they go through states
that are the same but for what is not seen in the outcome (`Unseen`).

There is one thing that the analysis with folding gets around: what has to be
evaluated must be defined. So it matters that whatever can be folded with is
defined (`Backed`).
-/

namespace Stagewise.Analysis

open Source (Expr Invocation)

variable {β α γ μ : Type} {ctx : Context β} {s t : State β}
  {table : String → Except Backend.Fault Data}

/-! ## States side by side -/

/-- **What an analysis keeps to itself.** -/
structure Unseen (β : Type) where
  backend : β
  transcript : List Exchange
  values : Values
  moments : List Moment
  foldings : List (Term × Value)

/-- What is not seen of a state. -/
def State.unseen (s : State β) : Unseen β :=
  ⟨s.backend, s.transcript, s.values, s.moments, s.foldings⟩

/-- **A state with something else that is not seen.** -/
def State.beside (s : State β) (o : Unseen β) : State β :=
  { s with
    backend := o.backend
    transcript := o.transcript
    values := o.values
    moments := o.moments
    foldings := o.foldings }

/-- The end of a step in such a state. -/
def besideResult (o : Unseen β) :
    EStateM.Result Halt (State β) α → EStateM.Result Halt (State β) α
  | .ok a t => .ok a (t.beside o)
  | .error e t => .error e (t.beside o)

/-- The same analysis without folding. -/
def Context.unfolded (ctx : Context β) : Context β :=
  { ctx with options := { ctx.options with fold := false } }

/-- **What can be folded with is defined.** -/
structure Backed (s : State β) : Prop where
  values : ∀ x, (s.values.lookup x).isSome = true → x ∈ s.defined
  builtins : ∀ c : Builtin, (s.types.lookup c.name).isSome = true → c.name ∈ s.defined

/-- **A table confirms foldings** if it has the same values for the texts of the
ascriptions. -/
def Confirms (table : String → Except Backend.Fault Data) (foldings : List (Term × Value)) : Prop :=
  ∀ t v, (t, v) ∈ foldings → ∃ d, table t.lower.text = .ok d ∧ Value.decode [] d = .ok v

/-- **Two steps are twins** in a state: whatever else is not seen, they end
alike, if what was folded on the way is confirmed. -/
structure Twins (table : String → Except Backend.Fault Data) (s : State β) (x y : Check β α) :
    Prop where
  grows : EndsIn (fun t => s.foldings <+: t.foldings) (x s)
  backed : Backed s → EndsIn Backed (x s)
  beside : Backed s → EndsIn (fun t => Confirms table t.foldings) (x s) →
    ∀ o, ∃ o', y (s.beside o) = besideResult o' (x s)

/-- **A state is further on**: more is folded, and what can be folded with is
defined still. -/
structure Further (s t : State β) : Prop where
  grows : s.foldings <+: t.foldings
  backed : Backed s → Backed t

namespace Further

theorem refl (s : State β) : Further s s := ⟨List.prefix_refl _, fun h => h⟩

/-- Nothing was learned. -/
theorem of_same (foldings : s.foldings <+: t.foldings) (values : t.values = s.values)
    (types : t.types = s.types) (defined : s.defined <+: t.defined) : Further s t where
  grows := foldings
  backed hs :=
    { values := fun x hx => defined.subset (hs.values x (values ▸ hx))
      builtins := fun c hc => defined.subset (hs.builtins c (types ▸ hc)) }

/-- The same is known. -/
theorem quiet (foldings : t.foldings = s.foldings) (values : t.values = s.values)
    (types : t.types = s.types) (defined : t.defined = s.defined) : Further s t :=
  of_same (foldings ▸ List.prefix_refl _) values types (defined ▸ List.prefix_refl _)

end Further

/-- What is confirmed in the end was confirmed before. -/
theorem EndsIn.confirms {r : EStateM.Result Halt (State β) α}
    (h : EndsIn (fun t => s.foldings <+: t.foldings) r)
    (hc : EndsIn (fun t => Confirms table t.foldings) r) : Confirms table s.foldings := by
  cases r with
  | ok a t => exact fun e v hv => hc e v (h.subset hv)
  | error e t => exact fun e v hv => hc e v (h.subset hv)

namespace Twins

/-- A step that gets further on, and does so with anything that is not seen. -/
theorem of_further {x y : Check β α} (h : EndsIn (Further s) (x s))
    (hy : ∀ o, ∃ o', y (s.beside o) = besideResult o' (x s)) : Twins table s x y where
  grows := h.imp fun _ ht => ht.grows
  backed hs := h.imp fun _ ht => ht.backed hs
  beside _ _ := hy

/-- **Steps that go on from a state like twins.** -/
theorem after {x y x' y' : Check β α} (h : Twins table t x y) (hst : Further s t)
    (hx : x' s = x t)
    (hy : Backed s → Confirms table t.foldings → ∀ o, ∃ o', y' (s.beside o) = y (t.beside o')) :
    Twins table s x' y' where
  grows := by
    rw [hx]
    exact h.grows.imp fun _ hu => hst.grows.trans hu
  backed hs := by
    rw [hx]
    exact h.backed (hst.backed hs)
  beside hs hc o := by
    rw [hx] at hc ⊢
    obtain ⟨o', ho'⟩ := hy hs (h.grows.confirms hc) o
    rw [ho']
    exact h.beside (hst.backed hs) hc o'

/-- Steps that do the same as twins. -/
theorem congr {x y x' y' : Check β α} (h : Twins table s x y) (hx : x' s = x s)
    (hy : ∀ o, y' (s.beside o) = y (s.beside o)) : Twins table s x' y' :=
  h.after (.refl s) hx fun _ _ o => ⟨o, hy o⟩

/-- **A sequence of twins.** -/
theorem bind {x y : Check β α} {f g : α → Check β γ} (h : Twins table s x y)
    (hnext : ∀ a t, x s = .ok a t → Twins table t (f a) (g a)) :
    Twins table s (x >>= f) (y >>= g) := by
  have hgrows := h.grows
  have hbacked := h.backed
  have hbeside := h.beside
  cases hx : x s with
  | error e t =>
    rw [hx] at hgrows hbacked hbeside
    refine ⟨?_, fun hs => ?_, fun hs hc o => ?_⟩
    · rw [bind_of_error hx]
      exact hgrows
    · rw [bind_of_error hx]
      exact hbacked hs
    · rw [bind_of_error hx] at hc ⊢
      obtain ⟨o', ho'⟩ := hbeside hs hc o
      exact ⟨o', bind_of_error ho' g⟩
  | ok a t =>
    rw [hx] at hgrows hbacked hbeside
    have hnext := hnext a t hx
    refine ⟨?_, fun hs => ?_, fun hs hc o => ?_⟩
    · rw [bind_of_ok hx]
      exact hnext.grows.imp fun u hu => hgrows.trans hu
    · rw [bind_of_ok hx]
      exact hnext.backed (hbacked hs)
    · rw [bind_of_ok hx] at hc ⊢
      obtain ⟨o', ho'⟩ := hbeside hs (hnext.grows.confirms hc) o
      obtain ⟨o'', ho''⟩ := hnext.beside (hbacked hs) hc o'
      exact ⟨o'', (bind_of_ok ho' g).trans ho''⟩

/-- Steps are twins if they are twins in a place of their own. -/
theorem place {x y x' y' : Check β α} {leave : State β → State β} (h : Twins table t x y)
    (hx : x' s = leaving leave (x t)) (hy : ∀ o, y' (s.beside o) = leaving leave (y (t.beside o)))
    (hst : Further s t) (hleave : ∀ u, Further u (leave u))
    (hfoldings : ∀ u, (leave u).foldings = u.foldings)
    (hbeside : ∀ u o, leave (u.beside o) = (leave u).beside o) : Twins table s x' y' where
  grows := by
    rw [hx]
    exact h.grows.leaving fun u hu => (hst.grows.trans hu).trans (hleave u).grows
  backed hs := by
    rw [hx]
    exact (h.backed (hst.backed hs)).leaving fun u hu => (hleave u).backed hu
  beside hs hc o := by
    rw [hx] at hc ⊢
    rw [hy]
    have hconfirms : EndsIn (fun u => Confirms table u.foldings) (x t) :=
      hc.of_leaving fun u hu => by rwa [hfoldings u] at hu
    obtain ⟨o', ho'⟩ := h.beside (hst.backed hs) hconfirms o
    refine ⟨o', ?_⟩
    rw [ho']
    cases x t with
    | ok a u => exact congrArg (EStateM.Result.ok a) (hbeside u o')
    | error e u => exact congrArg (EStateM.Result.error e) (hbeside u o')

/-- A scope of its own is the same for both. -/
theorem inScope {x y : Check β α} (h : Twins table { s with scopes := s.scopes.push } x y) :
    Twins table s (inScope x) (inScope y) :=
  h.place (inScope_apply x s) (fun o => inScope_apply y (s.beside o)) (.quiet rfl rfl rfl rfl)
    (fun _ => .quiet rfl rfl rfl rfl) (fun _ => rfl) fun _ _ => rfl

theorem inAscription {x y : Check β α} (h : Twins table { s with inAscription := true } x y) :
    Twins table s (inAscription x) (inAscription y) :=
  h.place (inAscription_apply x s) (fun o => inAscription_apply y (s.beside o))
    (.quiet rfl rfl rfl rfl) (fun _ => .quiet rfl rfl rfl rfl) (fun _ => rfl) fun _ _ => rfl

theorem pure (a : α) : Twins table s (Pure.pure a) (Pure.pure a) :=
  of_further (Further.quiet rfl rfl rfl rfl) fun o => ⟨o, rfl⟩

theorem report (d : Diagnostic) :
    Twins table s (Analysis.report d : Check β α) (Analysis.report d) :=
  of_further (Further.quiet rfl rfl rfl rfl) fun o => ⟨o, rfl⟩

theorem throw (e : Halt) : Twins table s (MonadExcept.throw e : Check β α) (MonadExcept.throw e) :=
  of_further (Further.quiet rfl rfl rfl rfl) fun o => ⟨o, rfl⟩

theorem stop (f : Fatal) : Twins table s (Analysis.stop f : Check β α) (Analysis.stop f) :=
  throw (.fatal f)

/-- A local is introduced by both. -/
theorem introduce (kind : Local.Kind) (name : Name) (ty : Ty) :
    Twins table s (introduce kind name ty) (introduce kind name ty) := by
  cases h : s.scopes.add name (.lexical ⟨name, kind, ty⟩) with
  | ok scopes =>
    refine of_further ?_ fun o => ⟨o, ?_⟩
    · rw [introduce_of_ok h]
      exact Further.quiet rfl rfl rfl rfl
    · rw [introduce_of_ok h]
      exact introduce_of_ok (s := s.beside o) h
  | error d =>
    exact (report d).congr (introduce_of_error h) fun o => introduce_of_error (s := s.beside o) h

end Twins

/-- **Two steps are twins** wherever they are taken. -/
def Twin (table : String → Except Backend.Fault Data) {α : Type} (x y : Check β α) : Prop :=
  ∀ s, Twins table s x y

/-- **Twins are kept by the operations of steps.** -/
theorem congruence_twin (table : String → Except Backend.Fault Data) :
    Congruence (Twin table : {α : Type} → Check β α → Check β α → Prop) where
  pure a _ := .pure a
  bind hstep hnext s := (hstep s).bind fun a t _ => hnext a t
  report d _ := .report d
  inScope hstep _ := .inScope (hstep _)
  introduce kind name ty _ := .introduce kind name ty
  capturing hstep _ := .inScope ((hstep _).bind fun _ _ _ =>
    .of_further (Further.quiet rfl rfl rfl rfl) fun o => ⟨o, rfl⟩)

/-! ## Requests -/

/-- Two requests that get the same answer. -/
theorem twins_send {kind : Request} {subject subject' : Subject} {text text' : String}
    {run run' : β → Except Backend.Fault α × β} (h : ∀ b b', (run b).1 = (run' b').1) :
    Twins table s (send kind subject text run) (send kind subject' text' run') := by
  have hasked (said said' : Exchange) (b : β) (o : Unseen β) :
      ∃ o', (s.beside o).asked said' (run' o.backend).2 = (s.asked said b).beside o' :=
    ⟨((s.beside o).asked said' (run' o.backend).2).unseen, rfl⟩
  cases hanswer : (run s.backend).1 with
  | ok a =>
    refine .of_further ?_ fun o => ?_
    · rw [send_of_ok hanswer]
      exact Further.quiet rfl rfl rfl rfl
    · have hanswer' : (run' (s.beside o).backend).1 = .ok a := (h _ _).symm.trans hanswer
      rw [send_of_ok hanswer, send_of_ok hanswer']
      obtain ⟨o', ho'⟩ := hasked ⟨kind, text, subject, true⟩ ⟨kind, text', subject', true⟩ _ o
      exact ⟨o', congrArg (EStateM.Result.ok a) ho'⟩
  | error f =>
    refine .of_further ?_ fun o => ?_
    · rw [send_of_error hanswer]
      exact Further.quiet rfl rfl rfl rfl
    · have hanswer' : (run' (s.beside o).backend).1 = .error f := (h _ _).symm.trans hanswer
      rw [send_of_error hanswer, send_of_error hanswer']
      obtain ⟨o', ho'⟩ := hasked ⟨kind, text, subject, false⟩ ⟨kind, text', subject', false⟩ _ o
      exact ⟨o', congrArg (EStateM.Result.error _) ho'⟩

theorem twins_decoded (d : Data) : Twins (β := β) table s (decoded d) (decoded d) := by
  unfold decoded
  cases Value.decode [] d with
  | ok v => exact .pure v
  | error e => exact .stop _

theorem twins_asType (v : Value) : Twins (β := β) table s (asType v) (asType v) := by
  cases v with
  | type ty => exact .pure ty
  | _ => exact .stop _

/-- **A term that is evaluated by both** gets the same reply, which depends on
the text alone. The test that all it refers to is defined comes out the same, as
both have defined the same. -/
theorem twins_evaluate (hr : ctx.backend.Replies table) (e : Term) :
    Twins table s (evaluate ctx e) (evaluate ctx.unfolded e) := by
  cases hfind : e.globals.find? (· ∉ s.defined) with
  | some x =>
    exact (Twins.stop _).congr (evaluate_of_early hfind) fun o =>
      evaluate_of_early (s := s.beside o) hfind
  | none =>
    have hsend : Twins table s
        (send .evaluate (.term e) e.lower.text (ctx.backend.evaluate e.lower.text) >>= decoded)
        (send .evaluate (.term e) e.lower.text (ctx.backend.evaluate e.lower.text) >>= decoded) :=
      (twins_send fun b b' => (hr.evaluate _ b).trans (hr.evaluate _ b').symm).bind
        fun d t _ => twins_decoded d
    exact hsend.congr (evaluate_of_defined hfind) fun o =>
      evaluate_of_defined (s := s.beside o) hfind

/-- An expansion is the same for both, be it known or asked for. -/
theorem twins_expansion (hr : ctx.backend.Replies table) (binding : Binding) (text : String) :
    Twins table s (expansion ctx binding text) (expansion ctx.unfolded binding text) := by
  cases hget : s.cache.get? text with
  | some d =>
    have hknown : Twins table s (fun s => .ok d (s.expanded text d))
        (fun s => .ok d (s.expanded text d)) :=
      .of_further (Further.quiet rfl rfl rfl rfl) fun o => ⟨o, rfl⟩
    exact hknown.congr (expansion_of_known hget) fun o =>
      expansion_of_known (s := s.beside o) hget
  | none =>
    refine Twins.congr (.bind (y := send .evaluate (.expansion binding) text
      (ctx.backend.evaluate text)) (twins_send fun b b' => ?_) fun d t _ => ?_)
      (expansion_of_unknown hget) fun o => expansion_of_unknown (s := s.beside o) hget
    · exact (hr.evaluate _ b).trans (hr.evaluate _ b').symm
    · exact .of_further (Further.quiet rfl rfl rfl rfl) fun o => ⟨o, rfl⟩

/-- **Both define**, and the texts may differ: what one of them has as a value
the other has as a body. The backend takes either. -/
theorem twins_define (hr : ctx.backend.Replies table) (name : String) (subject subject' : Subject)
    (text text' : String) :
    Twins table s (define ctx name subject text) (define ctx.unfolded name subject' text') := by
  by_cases hdefined : name ∈ s.defined
  · exact (Twins.stop _).congr (define_of_mem ctx hdefined ..) fun o =>
      define_of_mem (s := s.beside o) ctx.unfolded hdefined ..
  · refine Twins.after (t := { s with defined := s.defined ++ [name] })
      (y := send .define subject' text' (ctx.backend.define text')) (twins_send fun b b' => ?_)
      (.of_same (List.prefix_refl _) rfl rfl (List.prefix_append ..))
      (define_of_not_mem ctx hdefined subject text)
      fun _ _ o => ⟨o, define_of_not_mem (s := s.beside o) ctx.unfolded hdefined subject' text'⟩
    exact (hr.define _ b).trans (hr.define _ b').symm

/-!
## Names and ascriptions

This is where the two go different ways. One folds the ascription to a value.
The other has to have it evaluated, and for that all that it refers to must be
defined. It is, because a term folds only with values that are known, and a
value is known of what is defined. The reply is then what the first one has
folded to, if the table confirms that.
-/

/-- A name is looked up by both, and noted by both in their own way. -/
theorem twin_typeOf {demand demand' : String → Check β Ty}
    (h : ∀ x, Twin table (demand x) (demand' x)) (name : Name) :
    Twin table (typeOf demand name) (typeOf demand' name) := by
  intro s
  cases hget : s.scopes.get name.text with
  | none =>
    exact (Twins.report (s.unknown name)).congr (typeOf_of_none hget) fun o =>
      typeOf_of_none (s := s.beside o) hget
  | some found =>
    obtain ⟨binding, scopes⟩ := found
    have hfound : Further s (s.found name.text binding scopes) := .quiet rfl rfl rfl rfl
    -- what was known goes with the name, and is not seen
    have hbeside (o : Unseen β) : ∃ o', (s.beside o).found name.text binding scopes
        = (s.found name.text binding scopes).beside o' :=
      ⟨((s.beside o).found name.text binding scopes).unseen, rfl⟩
    cases binding with
    | lexical l =>
      refine Twins.after (.pure (Binding.lexical l, l.ty)) hfound (typeOf_of_lexical hget)
        fun _ _ o => ?_
      obtain ⟨o', ho'⟩ := hbeside o
      refine ⟨o', (typeOf_of_lexical (s := s.beside o) hget).trans ?_⟩
      rw [ho']
      rfl
    | global x =>
      have hdemand := (congruence_twin table).bind (h x) fun ty =>
        (congruence_twin table).pure (Binding.global x, ty)
      refine (hdemand _).after hfound (typeOf_of_global hget) fun _ _ o => ?_
      obtain ⟨o', ho'⟩ := hbeside o
      refine ⟨o', (typeOf_of_global (s := s.beside o) hget).trans ?_⟩
      rw [ho']

/-- What an ascription that folds refers to is defined. -/
theorem Backed.mem_defined (hs : Backed s) {e : Term} {E : Env} (he : e.Typed (Published s) E)
    {v : Value} (hv : Fold.term s.values e = some v) : ∀ x ∈ e.globals, x ∈ s.defined := by
  intro x hx
  obtain hknown | ⟨c, rfl⟩ := Fold.known_of_mem_globals e v hv x hx
  · exact hs.values x hknown
  · obtain ⟨ty, hty⟩ := Term.WellTyped.of_mem_globals e he.wellTyped _ hx
    exact hs.builtins c (Option.isSome_of_eq_some hty)

/-- **What an ascription stands for**, folded or evaluated. -/
theorem twins_folded (hr : ctx.backend.Replies table) {e : Term} {E : Env}
    (he : e.Typed (Published s) E) :
    Twins table s (folded ctx e >>= fun v => v.elim (evaluate ctx e) pure >>= asType)
      (folded ctx.unfolded e >>= fun v => v.elim (evaluate ctx.unfolded e) pure >>= asType) := by
  have hfolded := bind_of_ok (folded_apply ctx e s) fun v =>
    v.elim (evaluate ctx e) pure >>= asType
  have hunfolded (t : State β) := bind_of_ok (folded_apply ctx.unfolded e t) fun v =>
    v.elim (evaluate ctx.unfolded e) pure >>= asType
  cases hv : ctx.foldedTo? s.values e with
  | none =>
    have hevaluate : Twins table (s.folding e none) (evaluate ctx e >>= asType)
        (evaluate ctx.unfolded e >>= asType) :=
      (twins_evaluate hr e).bind fun v t _ => twins_asType v
    rw [hv] at hfolded
    refine hevaluate.after (.quiet (List.append_nil _) rfl rfl rfl) hfolded fun _ _ o => ?_
    exact ⟨((s.beside o).folding e none).unseen, hunfolded (s.beside o)⟩
  | some v =>
    have hterm : Fold.term s.values e = some v := (Option.ite_none_right_eq_some.mp hv).2
    rw [hv] at hfolded
    refine (twins_asType v).after (t := s.folding e (some v))
      (.of_same (List.prefix_append ..) rfl rfl (List.prefix_refl _)) hfolded fun hs hc o => ?_
    -- the backend is asked instead, and says the same
    obtain ⟨d, hd, hdecode⟩ := hc e v (List.mem_append_right _ List.mem_cons_self)
    have hdefined : e.globals.find? (· ∉ s.defined) = none :=
      List.find?_eq_none.mpr fun x hx => by simpa using hs.mem_defined he hterm x hx
    have hreply := (hr.evaluate e.lower.text o.backend).trans hd
    obtain ⟨u, hevaluate, hu⟩ : ∃ u,
        evaluate ctx.unfolded e ((s.beside o).folding e none) = .ok v u ∧
          u = (s.folding e (some v)).beside u.unseen :=
      ⟨_, evaluate_of_reply (s := (s.beside o).folding e none) hdefined hreply hdecode, rfl⟩
    refine ⟨u.unseen, (hunfolded (s.beside o)).trans ?_⟩
    rw [← hu]
    exact bind_of_ok hevaluate asType

/-- **Ascriptions are twins** if the steps that check them are. -/
theorem twin_ascribed (hr : ctx.backend.Replies table) {demand : String → Check β Ty}
    {expand : Span → μ → Option Ty → Check β Term} (hp : Provides ctx demand expand) (e : Expr μ)
    {y : Check β Term} (h : Twin table (infer ctx demand expand e (some .type)) y) (span : Span) :
    Twin table (ascribed ctx span (infer ctx demand expand e (some .type)))
      (ascribed ctx.unfolded span y) := by
  intro s
  rw [ascribed_eq, ascribed_eq]
  refine .bind (.inAscription (h _)) fun term t ht => ?_
  have hterm : Term.Typed (Published t) s.scopes.bare.resolve term :=
    ((Proceeds.inAscription (R := Yields s.scopes.bare) (fun _ _ _ h => h)
      (infer_proceeds hp rfl e _)).of_eq_ok ht).2.2
  refine .bind ((congruence_twin table).expect _ _ _ _ t) fun _ u hu => ?_
  obtain rfl := eq_of_expect hu
  exact twins_folded hr hterm

/-- What is asked of an expander is the same for both. -/
theorem expandsAlike_twin (hr : ctx.backend.Replies table) :
    ExpandsAlike (Twin table) ctx ctx.unfolded where
  defined d e x y next s := by
    by_cases h : d ∈ s.defined
    · exact (next s).congr (defined_of_mem h) fun o => defined_of_mem (s := s.beside o) h
    · exact (Twins.stop (.internal e)).congr (defined_of_not_mem h) fun o =>
        defined_of_not_mem (s := s.beside o) h
  expansion binding text _ := twins_expansion hr binding text

/-- **The checking of trees has a twin** if asking for types has. -/
theorem corresponds_twin (hr : ctx.backend.Replies table) {demand demand' : String → Check β Ty}
    (hd : Demands ctx demand) (h : ∀ x, Twin table (demand x) (demand' x)) :
    Corresponds (Twin table) ctx ctx.unfolded demand demand' (expand ctx demand)
      (expand ctx.unfolded demand') where
  typeOf := twin_typeOf h
  ascribed e he := twin_ascribed hr (provides_expand hd) e he e.span
  expand := (congruence_twin table).expand (expandsAlike_twin hr) (twin_typeOf h) fun e hint =>
    (congruence_twin table).infer ⟨twin_typeOf h,
      fun e he => twin_ascribed hr ⟨hd, fun _ _ _ m => m.elim⟩ e he e.span,
      fun _ m _ => m.elim⟩ e hint

/-! ## One declaration -/

/-- A type is published. A built-in has to be defined by then. -/
theorem twins_publish {name : String} (h : ∀ c : Builtin, c.name = name → name ∈ s.defined)
    (ty : Ty) : Twins table s (publish name ty) (publish name ty) := by
  refine .of_further ⟨List.prefix_refl _, fun hs => ⟨hs.values, fun c hc => ?_⟩⟩ fun o => ⟨o, rfl⟩
  by_cases hname : c.name = name
  · exact hname ▸ h c hname
  · refine hs.builtins c ?_
    rwa [show ((name, ty) :: s.types).lookup c.name = s.types.lookup c.name from
      lookup_append_of_ne (a := some ty) hname] at hc

/-- A value is remembered by one of the two. The declaration has to be defined
by then. -/
theorem further_remember {name : String} (h : name ∈ s.defined) (v : Value) :
    Further s { s with values := (name, v) :: s.values } := by
  refine ⟨List.prefix_refl _, fun hs => ⟨fun x hx => ?_, hs.builtins⟩⟩
  by_cases hname : x = name
  · exact hname ▸ h
  · refine hs.values x ?_
    rwa [show ((name, v) :: s.values).lookup x = s.values.lookup x from
      lookup_append_of_ne (a := some v) hname] at hx

/-- A built-in has a value that may be folded with. It is defined first. -/
theorem twins_examineBuiltin (hr : ctx.backend.Replies table) (b : Builtin) :
    Twins table s (examineBuiltin ctx b) (examineBuiltin ctx.unfolded b) := by
  unfold examineBuiltin
  refine .bind (twins_send fun b b' => (hr.declare _ b).trans (hr.declare _ b').symm)
    fun _ t _ => ?_
  refine .bind (twins_define hr ..) fun _ u hu => ?_
  have hdefined := (of_define hu).2.1
  refine .bind (twins_publish (fun _ _ => hdefined) b.ty) fun _ v hv => ?_
  replace hdefined : b.name ∈ v.defined := by
    cases hv
    exact hdefined
  cases b.alias? with
  | none => exact .pure ()
  | some ty =>
    exact .of_further (x := remember b.name (.type ty)) (further_remember hdefined _) fun o =>
      ⟨{ o with values := (b.name, .type ty) :: o.values }, rfl⟩

/-- **A function is examined by twins.** Nothing of it is folded but the
ascriptions. -/
theorem twins_examineFunction (hr : ctx.backend.Replies table)
    {demand demand' : String → Check β Ty} (hd : Demands ctx demand)
    (h : ∀ x, Twin table (demand x) (demand' x)) (f : Source.Function)
    (hname : ∀ c : Builtin, c.name ≠ f.name.text) :
    Twins table s (examineFunction ctx demand f) (examineFunction ctx.unfolded demand' f) := by
  have hc := congruence_twin (β := β) table
  have hcorresponds := corresponds_twin hr hd h
  unfold examineFunction
  refine .bind (.of_further (Further.quiet rfl rfl rfl rfl) fun o => ⟨o, rfl⟩) fun _ t _ => ?_
  refine .bind (hc.inferParams hcorresponds f.params t) fun params u _ => ?_
  refine .bind (hcorresponds.ascribed f.result (hc.infer hcorresponds f.result _) u)
    fun result v _ => ?_
  refine .bind (twins_publish (fun c hc => absurd hc (hname c)) _) fun _ w _ => ?_
  refine .bind (.of_further (Further.quiet rfl rfl rfl rfl) fun o => ⟨o, rfl⟩) fun _ x _ => ?_
  refine .bind (twins_send fun b b' => (hr.declare _ b).trans (hr.declare _ b').symm)
    fun _ y _ => ?_
  refine hc.bind (hc.inScope (hc.bind (hc.introduceParams params) fun _ =>
    hc.checkBlock hcorresponds f.body _)) (fun body => ?_) y
  exact hc.bind (hc.expect _ _ _ _) fun _ => hc.reportIf fun z => twins_define hr ..

/-- **A constant is examined by twins.** One of them may fold its body, and then
knows a value that the other does not, and has told the backend another text.
Neither of this is seen. -/
theorem twins_examineConstant (hr : ctx.backend.Replies table)
    {demand demand' : String → Check β Ty} (hd : Demands ctx demand)
    (h : ∀ x, Twin table (demand x) (demand' x)) (c : Source.Constant) :
    Twins table s (examineConstant ctx demand c) (examineConstant ctx.unfolded demand' c) := by
  have hc := congruence_twin (β := β) table
  have hcorresponds := corresponds_twin hr hd h
  unfold examineConstant
  refine .bind (.of_further (Further.quiet rfl rfl rfl rfl) fun o => ⟨o, rfl⟩) fun _ t _ => ?_
  refine .bind (hcorresponds.ascribed c.ascription (hc.infer hcorresponds c.ascription _) t)
    fun ty u _ => ?_
  refine .bind (twins_send fun b b' => (hr.declare _ b).trans (hr.declare _ b').symm)
    fun _ v _ => ?_
  refine .bind (.inScope (hc.checkBlock hcorresponds c.body _ _)) fun body w _ => ?_
  refine .bind (hc.expect _ _ _ _ w) fun _ x _ => ?_
  -- a constant that folds is defined by its value, which the other does not know
  have hnote : Further x { x with moments := x.now :: x.moments } := .quiet rfl rfl rfl rfl
  cases hvalue : (if ctx.options.fold then Fold.block x.values body else none) with
  | none =>
    have hdefine : Twins table { x with moments := x.now :: x.moments }
        (define ctx c.name.text (.body c.name.text body)
          (Target.Item.computed c.name.text ty body).text >>= fun _ => publish c.name.text ty)
        (define ctx.unfolded c.name.text (.body c.name.text body)
          (Target.Item.computed c.name.text ty body).text >>= fun _ => publish c.name.text ty) :=
      (twins_define hr ..).bind fun _ y hy =>
        twins_publish (fun _ _ => (of_define hy).2.1) ty
    refine hdefine.after hnote ?_
      fun _ _ o => ⟨{ o with moments := (x.beside o).now :: o.moments }, ?_⟩
    · rw [bind_of_ok (foldedBlock_apply ctx body x), hvalue]
    · exact bind_of_ok (foldedBlock_apply ctx.unfolded body (x.beside o)) _
  | some value =>
    have hdefine : Twins table { x with moments := x.now :: x.moments }
        (define ctx c.name.text (.literal c.name.text value)
          (Target.Item.known c.name.text ty value).text >>= fun _ =>
            remember c.name.text value >>= fun _ => publish c.name.text ty)
        (define ctx.unfolded c.name.text (.body c.name.text body)
          (Target.Item.computed c.name.text ty body).text >>= fun _ => publish c.name.text ty) := by
      refine (twins_define hr ..).bind fun _ y hy => ?_
      have hdefined := (of_define hy).2.1
      exact (twins_publish (s := { y with values := (c.name.text, value) :: y.values })
        (fun _ _ => hdefined) ty).after (further_remember hdefined value) rfl fun _ _ o => ⟨o, rfl⟩
    refine hdefine.after hnote ?_
      fun _ _ o => ⟨{ o with moments := (x.beside o).now :: o.moments }, ?_⟩
    · rw [bind_of_ok (foldedBlock_apply ctx body x), hvalue]
    · exact bind_of_ok (foldedBlock_apply ctx.unfolded body (x.beside o)) _

/-- **Examining a declaration has a twin** if asking for types has. -/
theorem twins_examine (hr : ctx.backend.Replies table) (hall : ctx.HasBuiltins)
    {demand demand' : String → Check β Ty} (hd : Demands ctx demand)
    (h : ∀ x, Twin table (demand x) (demand' x)) {d : Declaration}
    (entry : d ∈ ctx.declarations.entries) :
    Twins table s (examine ctx demand d) (examine ctx.unfolded demand' d) := by
  rcases d with b | f | c
  · exact twins_examineBuiltin hr b
  · refine twins_examineFunction hr hd h f fun c hc => ?_
    cases hall.eq_builtin entry hc.symm
  · exact twins_examineConstant hr hd h c

/-! ## On demand -/

/-- A declaration is settled by both or refused by both. -/
theorem twins_settle {name : String} {step step' : Check β Unit}
    (h : Twins table (s.enter name) step step') :
    Twins table s (settle name step) (settle name step') := by
  by_cases hsettled : name ∈ s.defined ∨ name ∈ s.failed
  · exact (Twins.pure ()).congr (settle_of_settled hsettled) fun o =>
      settle_of_settled (s := s.beside o) hsettled
  have hx : settle name step s = closing s name (step (s.enter name)) := settle_of_new hsettled
  refine ⟨?_, fun hs => ?_, fun hs hc o => ?_⟩
  · rw [hx]
    exact h.grows.closing fun t ht _ => ht
  · rw [hx]
    exact (h.backed ⟨hs.values, hs.builtins⟩).closing fun t ht _ => ⟨ht.values, ht.builtins⟩
  · rw [hx] at hc ⊢
    obtain ⟨o', ho'⟩ := h.beside ⟨hs.values, hs.builtins⟩ (hc.of_closing fun _ _ h => h) o
    refine ⟨o', (settle_of_new (s := s.beside o) hsettled).trans ?_⟩
    rw [show step' ((s.beside o).enter name) = _ from ho']
    rcases step (s.enter name) with ⟨a, t⟩ | ⟨- | f, t⟩ <;> rfl

/-- What is answered for a declaration is its type, which is seen. -/
theorem twins_answer (x : String) : Twins (β := β) table s (answer x) (answer x) := by
  cases hnew : s.types.lookup x with
  | some ty =>
    exact (Twins.pure ty).congr (answer_of_published hnew) fun o =>
      answer_of_published (s := s.beside o) hnew
  | none =>
    by_cases hfailed : x ∈ s.failed
    · exact (Twins.throw .diagnostics).congr (answer_of_failed hnew hfailed) fun o =>
        answer_of_failed (s := s.beside o) hnew hfailed
    · exact (Twins.throw _).congr (answer_of_missing hnew hfailed) fun o =>
        answer_of_missing (s := s.beside o) hnew hfailed

/-- **Asking for types has a twin** if settling declarations has. -/
theorem twin_demandWith {analyze analyze' : Declaration → Check β Unit}
    (h : ∀ d ∈ ctx.declarations.entries, Twin table (analyze d) (analyze' d)) (x : String) :
    Twin table (demandWith ctx analyze x) (demandWith ctx.unfolded analyze' x) := by
  intro s
  cases asked ctx s x with
  | published hty =>
    exact (Twins.pure _).congr (demandWith_of_published hty) fun o =>
      demandWith_of_published (s := s.beside o) hty
  | failed hnew hfailed =>
    exact (Twins.throw _).congr (demandWith_of_failed hnew hfailed) fun o =>
      demandWith_of_failed (s := s.beside o) hnew hfailed
  | inProgress hnew hfailed hprogress =>
    exact (Twins.throw _).congr (demandWith_of_inProgress hnew hfailed hprogress) fun o =>
      demandWith_of_inProgress (s := s.beside o) hnew hfailed hprogress
  | undeclared hnew hfailed hprogress hfind =>
    exact (Twins.throw _).congr (demandWith_of_undeclared hnew hfailed hprogress hfind) fun o =>
      demandWith_of_undeclared (s := s.beside o) hnew hfailed hprogress hfind
  | fresh hd hnew hfailed hprogress =>
    rename_i d
    have hanalyze := (h d hd s).bind fun _ t _ => twins_answer (s := t) d.name
    exact hanalyze.congr (demandWith_of_fresh hnew hfailed hprogress hd) fun o =>
      demandWith_of_fresh (s := s.beside o) hnew hfailed hprogress hd

/-- **Settling a declaration has a twin**, with room for any number of
declarations. -/
theorem twin_analyzeWithin (hr : ctx.backend.Replies table) (hall : ctx.HasBuiltins) (depth : Nat)
    {d : Declaration} (entry : d ∈ ctx.declarations.entries) :
    Twin table (analyzeWithin ctx depth d) (analyzeWithin ctx.unfolded depth d) := by
  induction depth generalizing d with
  | zero => exact fun s => .stop _
  | succ depth ih =>
    intro s
    exact twins_settle (twins_examine hr hall (provides_demandWith ctx depth).demands
      (twin_demandWith fun d hd => ih hd) entry)

end Stagewise.Analysis
