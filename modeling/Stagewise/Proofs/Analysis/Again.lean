import Stagewise.Proofs.Analysis.Replay
import Stagewise.Proofs.Analysis.Retained
import Stagewise.Proofs.Scope.Twice

/-!
# Checking again

Let something be checked with success, and be checked again later, in the same
place. What it depends on was settled the first time, and whatever has happened
since, that is known (`Retains`). So no declaration is examined a second time.
Names refer to what they referred to, ascriptions fold to what they folded to or
are evaluated once more, and if the backend replies as it did then the result is
the same (`Repeatable`).

The scopes around the place have captured something the first time, and a
closure reads off what its scope has captured. That is a scope of its own
though, which was opened since. A step that reads captures is therefore repeated
only inside a scope that was opened since, and this is said by a number, of
scopes that have to be (`RepeatsIn`).
-/

namespace Stagewise.Analysis

open Source (Expr Invocation)

variable {β α γ μ : Type} {ctx : Context β} {s t s' : State β} {j k : Nat}
  {demand : String → Check β Ty} {table : String → Except Backend.Fault Data}

/-! ## Steps -/

/-- **The analysis has come back** in `s'` to the place where it was in `s`, and
has retained all that it had in `t`. In that place, `k` scopes were opened
since. -/
structure Returns (k : Nat) (s t s' : State β) : Prop where
  scopes : s.scopes.Matches k s'.scopes
  retains : Retains t s'

/-- **A result is obtained again** that was obtained in `t`. -/
def Regains (k : Nat) (a : α) (t : State β) (r : EStateM.Result Halt (State β) α) : Prop :=
  ∃ t', r = .ok a t' ∧ t.scopes.Matches k t'.scopes

/-- **A step repeats what it does in a state**, if it succeeds there, wherever
`j` scopes or more were opened since. -/
def RepeatsIn (j : Nat) (s : State β) (step : Check β α) : Prop :=
  ∀ a t, step s = .ok a t → ∀ k, j ≤ k → ∀ s', Returns k s t s' → Regains k a t (step s')

/-- A step that moves by a relation does so when it succeeds. -/
theorem Moves.of_eq_ok {R : State β → State β → Prop} {step : Check β α} {a : α}
    (h : Moves R step) (ht : step s = .ok a t) : R s t := by
  have hend := h s
  rw [ht] at hend
  exact hend

/-- A sequence that succeeds was gone through to its end. -/
theorem exists_of_step_bind {step : Check β α} {next : α → Check β γ} {c : γ}
    (h : (step >>= next) s = .ok c t) : ∃ a u, step s = .ok a u ∧ next a u = .ok c t := by
  cases hstep : step s with
  | ok a u => exact ⟨a, u, rfl, bind_of_ok hstep next ▸ h⟩
  | error e u =>
    rw [bind_of_error hstep] at h
    cases h

/-- A result is regained through a sequence if each step regains its own, from
where the last one has led. -/
theorem Regains.bind {step : Check β α} {next : α → Check β γ} {a : α} {c : γ} {u : State β}
    (h : Regains k a t (step s'))
    (hnext : ∀ t', step s' = .ok a t' → t.scopes.Matches k t'.scopes →
      Regains k c u (next a t')) : Regains k c u ((step >>= next) s') := by
  obtain ⟨t', ht', hmatches⟩ := h
  rw [bind_of_ok ht']
  exact hnext t' ht' hmatches

namespace RepeatsIn

/-- What can be repeated anywhere can be repeated where scopes were opened. -/
theorem mono (h : RepeatsIn 0 s step) : RepeatsIn j s (step : Check β α) :=
  fun a t ht k _ => h a t ht k k.zero_le

/-- A step that does what another one does. -/
theorem congr {x y : Check β α} (h : RepeatsIn j s x) (hs : y s = x s)
    (hs' : ∀ a t, x s = .ok a t → ∀ k s', Returns k s t s' → y s' = x s') : RepeatsIn j s y := by
  intro a t ht k hk s' hreturns
  rw [hs] at ht
  rw [hs' a t ht k s' hreturns]
  exact h a t ht k hk s' hreturns

/-- **A sequence repeats itself** step by step. -/
theorem bind {step : Check β α} {next : α → Check β γ} (h : RepeatsIn j s step)
    (hstep : Moves Retains step) (hmoves : ∀ a, Moves Retains (next a))
    (hnext : ∀ a t, step s = .ok a t → RepeatsIn j t (next a)) : RepeatsIn j s (step >>= next) := by
  intro c u hu k hk s' hreturns
  obtain ⟨a, t, ht, hu⟩ := exists_of_step_bind hu
  have htu : Retains t u := (hmoves a).of_eq_ok hu
  refine (h a t ht k hk s' ⟨hreturns.scopes, htu.trans hreturns.retains⟩).bind
    fun t' ht' hmatches => ?_
  have hst' : Retains s' t' := hstep.of_eq_ok ht'
  exact hnext a t ht c u hu k hk t' ⟨hmatches, hreturns.retains.trans hst'⟩

theorem pure (a : α) : RepeatsIn j s (Pure.pure a) := by
  intro b t ht k _ s' hreturns
  cases ht
  exact ⟨s', rfl, hreturns.scopes⟩

/-- A step that did not succeed has nothing to repeat. -/
theorem of_error {step : Check β α} {e : Halt} (h : step s = .error e t) : RepeatsIn j s step := by
  intro a u hu
  rw [h] at hu
  cases hu

/-- A step that leaves the scopes alone, and has the same result again. -/
theorem of_ok {step : Check β α} {a : α} (h : step s = .ok a t) (hscopes : t.scopes = s.scopes)
    (hagain : ∀ k s', Returns k s t s' → ∃ t', step s' = .ok a t' ∧ t'.scopes = s'.scopes) :
    RepeatsIn j s step := by
  intro b u hu k _ s' hreturns
  obtain ⟨rfl, rfl⟩ := EStateM.Result.ok.inj (h.symm.trans hu)
  obtain ⟨t', ht', hscopes'⟩ := hagain k s' hreturns
  refine ⟨t', ht', ?_⟩
  rw [hscopes, hscopes']
  exact hreturns.scopes

/-- **A step in a place of its own**, which is entered each time, and where `i`
more scopes are opened. -/
theorem place {i : Nat} {step placed : Check β α} {enter : State β → State β}
    {leave : State β → State β → State β}
    (hplaced : ∀ s, placed s = leaving (leave s) (step (enter s)))
    (henter : ∀ k s s', s.scopes.Matches k s'.scopes →
      (enter s).scopes.Matches (k + i) (enter s').scopes)
    (hleave : ∀ k s s' t t', t.scopes.Matches (k + i) t'.scopes →
      (leave s t).scopes.Matches k (leave s' t').scopes)
    (hretains : ∀ s t s', Retains (leave s t) s' → Retains t (enter s'))
    (h : RepeatsIn (j + i) (enter s) step) : RepeatsIn j s placed := by
  intro a t ht k hk s' hreturns
  rw [hplaced] at ht ⊢
  cases hu : step (enter s) with
  | error e u =>
    rw [hu] at ht
    cases ht
  | ok b u =>
    rw [hu] at ht
    cases ht
    obtain ⟨u', hu', hmatches⟩ := h a u hu (k + i) (Nat.add_le_add_right hk i) (enter s')
      ⟨henter k s s' hreturns.scopes, hretains s u s' hreturns.retains⟩
    rw [hu']
    exact ⟨_, rfl, hleave k s s' u u' hmatches⟩

/-- **A scope of its own is opened each time.** So inside it one more scope was
opened since, and this is what allows a closure to read its captures. -/
theorem inScope {step : Check β α}
    (h : RepeatsIn (j + 1) { s with scopes := s.scopes.push } step) :
    RepeatsIn j s (inScope step) :=
  place (inScope_apply step) (fun _ _ _ hmatches => hmatches.push)
    (fun _ _ _ _ _ hmatches => hmatches.pop) (fun _ _ _ h => ⟨h.within, h.defined, h.cache⟩) h

theorem inAscription {step : Check β α} (h : RepeatsIn j { s with inAscription := true } step) :
    RepeatsIn j s (inAscription step) :=
  place (i := 0) (inAscription_apply step) (fun _ _ _ hmatches => hmatches)
    (fun _ _ _ _ _ hmatches => hmatches) (fun _ _ _ h => ⟨h.within, h.defined, h.cache⟩) h

/-- A name that was free is free again, as the scopes around the place match. -/
theorem introduce (kind : Local.Kind) (name : Name) (ty : Ty) :
    RepeatsIn j s (introduce kind name ty) := by
  cases hadd : s.scopes.add name (.lexical ⟨name, kind, ty⟩) with
  | error d => exact of_error (introduce_of_error hadd)
  | ok scopes =>
    intro a t ht k _ s' hreturns
    rw [introduce_of_ok hadd] at ht
    cases ht
    obtain ⟨scopes', hadd', hmatches⟩ := hreturns.scopes.add hadd
    exact ⟨_, introduce_of_ok hadd', hmatches⟩

/-- What is captured in a scope that was opened since. -/
theorem capturedNames : RepeatsIn 1 s capturedNames := by
  have happly (s : State β) : Analysis.capturedNames s
      = .ok (s.scopes.current.lexicalCaptures.map (·.name)) s := rfl
  intro names t ht k hk s' hreturns
  rw [happly] at ht ⊢
  cases ht
  obtain ⟨k, rfl⟩ := Nat.exists_eq_add_of_le' hk
  rw [hreturns.scopes.current]
  exact ⟨s', rfl, hreturns.scopes⟩

end RepeatsIn

/-- **A step can be repeated**, in whatever state it has succeeded. -/
structure Repeatable (step : Check β α) : Prop where
  retains : Moves Retains step
  again : ∀ s, RepeatsIn 0 s step

/-- **A closure captures again** what it has captured. -/
theorem repeatable_capturing (ctx : Context β) {step : Check β α} (h : Repeatable step) :
    Repeatable (capturing step) := by
  have hc := carries_retains ctx
  refine ⟨hc.congruence.capturing (y := step) h.retains, fun s => .inScope ?_⟩
  refine (h.again _).mono.bind h.retains (fun _ => hc.refl) fun a t _ => ?_
  exact RepeatsIn.capturedNames.bind hc.refl (fun _ => hc.refl) fun _ _ _ => .pure _

/-- That steps can be repeated is a congruence, of one analysis with itself. -/
theorem congruence_repeatable (ctx : Context β) :
    Congruence fun {α : Type} (x _ : Check β α) => Repeatable x where
  pure a := ⟨(carries_retains ctx).pure a, fun _ => .pure a⟩
  bind step next :=
    ⟨(carries_retains ctx).bind step.retains fun a => (next a).retains,
      fun s => (step.again s).bind step.retains (fun a => (next a).retains)
        fun a t _ => (next a).again t⟩
  report d := ⟨(carries_retains ctx).report d, fun _ => .of_error rfl⟩
  inScope step :=
    ⟨(carries_retains ctx).inScope step.retains, fun _ => .inScope (step.again _).mono⟩
  introduce kind name ty :=
    ⟨(carries_retains ctx).introduce kind name ty, fun _ => .introduce kind name ty⟩
  capturing := repeatable_capturing ctx

/-!
## Requests

A request is made again, and there is nothing to keep the backend from having
changed its mind. This is where it is needed that the backend replies by the
text alone. An expansion is not asked for again, since it is in the cache.
-/

theorem repeats_send {kind : Request} {subject : Subject} {text : String}
    {run : β → Except Backend.Fault α × β} (h : ∀ b b', (run b).1 = (run b').1) :
    RepeatsIn j s (send kind subject text run) := by
  cases hrun : (run s.backend).1 with
  | ok a =>
    refine .of_ok (send_of_ok hrun) rfl fun k s' _ => ?_
    exact ⟨_, send_of_ok ((h s'.backend s.backend).trans hrun), rfl⟩
  | error f => exact .of_error (send_of_error hrun)

theorem repeatable_stop (f : Fatal) : Repeatable (stop f : Check β α) :=
  ⟨.refl, fun _ => .of_error rfl⟩

theorem repeatable_decoded (ctx : Context β) (d : Data) :
    Repeatable (decoded d : Check β Value) := by
  unfold decoded
  cases Value.decode [] d with
  | ok v => exact (congruence_repeatable ctx).pure v
  | error e => exact repeatable_stop _

theorem repeatable_asType (ctx : Context β) (v : Value) : Repeatable (asType v : Check β Ty) := by
  cases v with
  | type ty => exact (congruence_repeatable ctx).pure ty
  | _ => exact repeatable_stop _

section

variable (hreplies : ∀ text b, (ctx.backend.evaluate text b).1 = table text)
include hreplies

/-- **A term is evaluated again** to what it was evaluated to. What it refers to
is defined still. -/
theorem repeatable_evaluate (e : Term) : Repeatable (evaluate ctx e) := by
  have hmoves := (carries_retains ctx).evaluateTerm e
  refine ⟨hmoves, fun s => ?_⟩
  cases hfind : e.globals.find? (· ∉ s.defined) with
  | some x => exact .of_error (evaluate_of_early hfind)
  | none =>
    have hrun : evaluate ctx e s = _ := evaluate_of_defined hfind
    have hsend : RepeatsIn 0 s (send .evaluate (.term e) e.lower.text
        (ctx.backend.evaluate e.lower.text) >>= decoded) :=
      (repeats_send fun b b' => (hreplies _ b).trans (hreplies _ b').symm).bind retains_send
        (fun d => (repeatable_decoded ctx d).retains)
        fun d t _ => (repeatable_decoded ctx d).again t
    refine hsend.congr hrun fun v t ht k s' hreturns => ?_
    -- all that the term refers to was defined, and so it is
    have hst : Retains s t := hmoves.of_eq_ok (hrun.trans ht)
    refine evaluate_of_defined (List.find?_eq_none.mpr fun x hx => ?_)
    have hmem : x ∈ s.defined := by simpa using List.find?_eq_none.mp hfind x hx
    simpa using (hst.trans hreturns.retains).defined hmem

/-- What an expander has returned is kept, so it is not asked again. -/
theorem repeats_expansion (binding : Binding) (text : String) :
    RepeatsIn j s (expansion ctx binding text) := by
  have hkept (d : Data) {t s' : State β} (hretains : Retains t s')
      (hd : t.cache.get? text = some d) :
      ∃ t', expansion ctx binding text s' = .ok d t' ∧ t'.scopes = s'.scopes :=
    ⟨_, expansion_of_known (hretains.cache text d hd), rfl⟩
  cases hget : s.cache.get? text with
  | some d =>
    exact .of_ok (expansion_of_known hget) rfl fun k s' hreturns => hkept d hreturns.retains hget
  | none =>
    have hunknown : expansion ctx binding text s = _ := expansion_of_unknown hget
    have hanswer := hreplies text s.backend
    cases hreply : table text with
    | error f =>
      rw [hreply] at hanswer
      exact .of_error (hunknown.trans (bind_of_error (send_of_error hanswer) _))
    | ok d =>
      rw [hreply] at hanswer
      refine .of_ok (hunknown.trans (bind_of_ok (send_of_ok hanswer) _)) rfl
        fun k s' hreturns => hkept d hreturns.retains ?_
      show (s.cache.insert text d).get? text = some d
      rw [Cache.get?_insert, hget, Option.none_or, if_pos rfl]

/-- An expander that was defined is defined still, and what it returned is
known. -/
theorem expandsAlike_repeatable :
    ExpandsAlike (fun {α : Type} (x _ : Check β α) => Repeatable x) ctx ctx where
  defined d e x y next := by
    refine ⟨(carries_retains ctx).expandsAlike.defined d e (y := y) next.retains, fun s => ?_⟩
    by_cases hd : d ∈ s.defined
    · refine (next.again s).congr (defined_of_mem hd) fun a t ht k s' hreturns => ?_
      have hst : Retains s t := next.retains.of_eq_ok ht
      exact defined_of_mem ((hst.trans hreturns.retains).defined hd)
    · exact .of_error (defined_of_not_mem hd)
  expansion binding text :=
    ⟨retains_expansion binding text, fun _ => repeats_expansion hreplies binding text⟩

end

/-! ## Names -/

/-- **Types can be asked for again**: what is known of a declaration is what it
is said to be. -/
structure Recalls (ctx : Context β) (demand : String → Check β Ty) : Prop where
  demands : Demands ctx demand
  retains : ∀ x, Moves Retains (demand x)
  known : ∀ {s x ty}, Published s x ty → demand x s = .ok ty s

theorem recalls_demandWith (ctx : Context β) (depth : Nat) :
    Recalls ctx (demandWith ctx (analyzeWithin ctx depth)) where
  demands := (provides_demandWith ctx depth).demands
  retains := retains_demandWith depth
  known := demandWith_of_published

/-- A type that was obtained is published, and so it is what is obtained
again. -/
theorem Recalls.repeats_demand (h : Recalls ctx demand) (x : String) :
    RepeatsIn j s (demand x) := by
  intro ty t ht k _ s' hreturns
  obtain ⟨hscopes, hty⟩ := ((h.demands s x).of_eq_ok ht).2
  refine ⟨s', h.known (hreturns.retains.within x ty hty).1, ?_⟩
  rw [hscopes]
  exact hreturns.scopes

/-- **A name refers to what it referred to.** The scopes of the place are as
they were but for what was captured, which has no influence on what a name is
found to be. -/
theorem Recalls.repeatable_typeOf (h : Recalls ctx demand) (name : Name) :
    Repeatable (typeOf demand name) := by
  refine ⟨(carries_retains ctx).typeOf h.retains name, fun s => ?_⟩
  cases hget : s.scopes.get name.text with
  | none => exact .of_error (typeOf_of_none hget)
  | some found =>
    obtain ⟨binding, scopes⟩ := found
    intro out t ht k hk s' hreturns
    obtain ⟨scopes', hget', hmatches⟩ := hreturns.scopes.get hget
    -- a local is found with its type, and the type of a declaration is published by now
    cases binding with
    | lexical l =>
      rw [typeOf_of_lexical hget] at ht
      cases ht
      exact ⟨_, typeOf_of_lexical hget', hmatches⟩
    | global x =>
      rw [typeOf_of_global hget] at ht
      rw [typeOf_of_global hget']
      have hdemand : RepeatsIn 0 (s.found name.text (.global x) scopes)
          (demand x >>= fun ty => pure (Binding.global x, ty)) :=
        (h.repeats_demand x).bind (h.retains x) (fun _ => (carries_retains ctx).refl)
          fun _ _ _ => .pure _
      have hretains := hreturns.retains
      exact hdemand out t ht k hk (s'.found name.text (.global x) scopes')
        ⟨hmatches, hretains.within, hretains.defined, hretains.cache⟩

/-! ## Ascriptions -/

/-- **Something folds again** to what it folded to, if all that it refers to had
a type. -/
theorem repeats_folded {e : Term} (he : ∀ x ∈ e.globals, ∃ ty, Published s x ty) :
    RepeatsIn j s (folded ctx e) := by
  refine .of_ok (folded_apply ctx e s) rfl fun k s' hreturns => ?_
  have hvalues (x : String) (hx : x ∈ e.globals) : s'.values.lookup x = s.values.lookup x := by
    obtain ⟨ty, hty⟩ := he x hx
    exact (hreturns.retains.within x ty hty).2
  have hfolded : ctx.foldedTo? s'.values e = ctx.foldedTo? s.values e := by
    rw [Context.foldedTo?, Context.foldedTo?, Fold.term_congr e hvalues]
  rw [folded_apply, hfolded]
  exact ⟨_, rfl, rfl⟩

section

variable {expand : Span → μ → Option Ty → Check β Term}
  (hreplies : ∀ text b, (ctx.backend.evaluate text b).1 = table text)
include hreplies

/-- **An ascription comes to the same type again.** It folds to what it folded
to, as what it refers to had its type and its value then (`repeats_folded`). So
it is evaluated again if and only if it was evaluated, and the backend replies
as it did. -/
theorem repeatable_ascribed (h : Provides ctx demand expand) {e : Expr μ} {hint : Option Ty}
    (span : Span) (hstep : Repeatable (infer ctx demand expand e hint)) :
    Repeatable (ascribed ctx span (infer ctx demand expand e hint)) := by
  have hc := carries_retains ctx
  refine ⟨hc.ascribed span hstep.retains, fun s => ?_⟩
  rw [ascribed_eq]
  have hexpect (e : Term) := (congruence_repeatable ctx).expect .plain .type e.ty span
  have hvalue (e : Term) (v : Option Value) :
      Repeatable (v.elim (evaluate ctx e) pure >>= asType) := by
    refine (congruence_repeatable ctx).bind (y := v.elim (evaluate ctx e) pure) (g := asType) ?_
      (repeatable_asType ctx)
    cases v with
    | none => exact repeatable_evaluate hreplies e
    | some v => exact (congruence_repeatable ctx).pure v
  have hfold (e : Term) := hc.bind (hc.folded e) fun v => (hvalue e v).retains
  refine (RepeatsIn.inAscription (hstep.again _)).bind (hc.ascription hstep.retains)
    (fun e => hc.bind (hexpect e).retains fun _ => hfold e) fun e t ht => ?_
  refine ((hexpect e).again t).bind (hexpect e).retains (fun _ => hfold e) fun _ u hu => ?_
  obtain rfl := eq_of_expect hu
  exact (repeats_folded (published_of_inAscription h ht)).bind (hc.folded e)
    (fun v => (hvalue e v).retains) fun v u _ => (hvalue e v).again u

/-!
## Trees

With names, ascriptions and expansions repeated, trees are: this is what it
means that repeating is a congruence.
-/

theorem corresponds_repeatable (hrecalls : Recalls ctx demand) (h : Provides ctx demand expand)
    (hexpand : ∀ span m hint, Repeatable (expand span m hint)) :
    Corresponds (fun {α : Type} (x _ : Check β α) => Repeatable x) ctx ctx demand demand
      expand expand where
  typeOf := hrecalls.repeatable_typeOf
  ascribed e step := repeatable_ascribed hreplies h e.span step
  expand := hexpand

end

section

variable (hreplies : ∀ text b, (ctx.backend.evaluate text b).1 = table text)
  (hrecalls : Recalls ctx demand)
include hreplies hrecalls

theorem repeatable_expand (span : Span) (m : Invocation) (hint : Option Ty) :
    Repeatable (expand ctx demand span m hint) :=
  @Congruence.expand β _ ctx ctx demand demand (congruence_repeatable ctx)
    (expandsAlike_repeatable hreplies) hrecalls.repeatable_typeOf
    (fun e hint => (congruence_repeatable ctx).infer (corresponds_repeatable hreplies hrecalls
      ⟨hrecalls.demands, fun _ _ _ m => m.elim⟩ fun _ m => m.elim) e hint) span m hint

/-- **What the checking of the source leaves to others** can be repeated, so
every tree can be checked again with the hint it was checked with. -/
theorem corresponds_source :
    Corresponds (fun {α : Type} (x _ : Check β α) => Repeatable x) ctx ctx demand demand
      (expand ctx demand) (expand ctx demand) :=
  corresponds_repeatable hreplies hrecalls (provides_expand hrecalls.demands)
    (repeatable_expand hreplies hrecalls)

end

end Stagewise.Analysis
