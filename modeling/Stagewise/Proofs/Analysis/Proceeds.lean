import Stagewise.Proofs.Analysis.Follows
import Stagewise.Proofs.Analysis.Knowledge
import Stagewise.Proofs.Environment

/-!
# Steps that proceed

A step **proceeds** from a state if it ends in one that extends it, in whatever
way it ends. If it succeeds then something can be said of the result, and if it
stops the analysis then that is internal, or the backend is to blame. Unlike
`Follows`, which tells what happens to declarations and needs the books to be in
order, this holds from any state at all.

Where a step is taken is known by the scopes around it (`At`). A step that
checks something is back in its place when it succeeds, and a step in a scope of
its own is somewhere in that scope.

The rules follow the operations of steps. There are two for sequences: what
comes after a step may be measured from where the step has led
(`Proceeds.bind`), or from some state further back (`Proceeds.bindFrom`), as it
has to be while a declaration publishes its type.
-/

namespace Stagewise.Analysis

variable {β α γ : Type} {ctx : Context β} {s t u : State β} {c d : Scopes}

/-- **The analysis is in a place.** -/
def At (c : Scopes) (s : State β) : Prop := s.scopes.bare = c

/-- **A step proceeds from a state**, and if it succeeds then its result has a
property. -/
def Proceeds (ctx : Context β) (s : State β) (R : State β → α → Prop) :
    EStateM.Result Halt (State β) α → Prop
  | .ok a t => Extends ctx s t ∧ R t a
  | .error .diagnostics t => Extends ctx s t
  | .error (.fatal f) t => Extends ctx s t ∧
    ∀ b, ctx.HasBuiltins → Informed ctx b s → Blames ctx.backend b t.transcript f

namespace Proceeds

variable {R : State β → α → Prop} {R' : State β → γ → Prop}

/-! ## Sequences -/

/-- A step that proceeds from a state further on proceeds from here. -/
theorem after {r : EStateM.Result Halt (State β) α} (hst : Extends ctx s t)
    (h : Proceeds ctx t R r) : Proceeds ctx s R r := by
  rcases r with ⟨a, u⟩ | ⟨- | f, u⟩
  · exact ⟨hst.trans h.1, h.2⟩
  · exact hst.trans h
  · exact ⟨hst.trans h.1, fun b hall hs => h.2 b hall (hst.informed b hall hs)⟩

/-- What is said of a result may be weakened, by what is known of the state it
was found in. -/
theorem imp {R' : State β → α → Prop} {r : EStateM.Result Halt (State β) α}
    (h : Proceeds ctx s R r) (hR : ∀ t a, Extends ctx s t → R t a → R' t a) :
    Proceeds ctx s R' r := by
  rcases r with ⟨a, u⟩ | ⟨- | f, u⟩
  · exact ⟨h.1, hR u a h.1 h.2⟩
  · exact h
  · exact h

/-- What there is to say of a step that has succeeded. -/
theorem of_eq_ok {r : EStateM.Result Halt (State β) α} {a : α} (h : Proceeds ctx s R r)
    (hr : r = .ok a t) : Extends ctx s t ∧ R t a := by
  subst hr
  exact h

/-- **A sequence proceeds from a state further back**, if its second step
does. -/
theorem bindFrom {step : Check β α} {next : α → Check β γ} (hst : Extends ctx s t)
    (h : Proceeds ctx t R (step t))
    (hnext : ∀ a u, Extends ctx t u → R u a → Proceeds ctx s R' (next a u)) :
    Proceeds ctx s R' ((step >>= next) t) := by
  show Proceeds ctx s R' (EStateM.bind step next t)
  unfold EStateM.bind
  generalize step t = r at h
  rcases r with ⟨a, u⟩ | ⟨- | f, u⟩
  · exact hnext a u h.1 h.2
  · exact hst.trans h
  · exact ⟨hst.trans h.1, fun b hall hs => h.2 b hall (hst.informed b hall hs)⟩

/-- **A sequence proceeds** if its first step does, and the rest from where that
ends. -/
theorem bind {step : Check β α} {next : α → Check β γ} (h : Proceeds ctx s R (step s))
    (hnext : ∀ a t, Extends ctx s t → R t a → Proceeds ctx t R' (next a t)) :
    Proceeds ctx s R' ((step >>= next) s) :=
  bindFrom (.refl s) h fun a t hst ha => (hnext a t hst ha).after hst

/-- To look at the state leads nowhere. -/
theorem get_bind {next : State β → Check β α} (h : Proceeds ctx s R (next t t)) :
    Proceeds ctx s R ((get >>= next) t) := h

theorem pure {a : α} (h : R s a) : Proceeds ctx s R ((pure a : Check β α) s) := ⟨.refl s, h⟩

/-! ## Reports -/

/-- A report ends the checking of the declaration at hand, and changes nothing
that is known. -/
theorem report (diagnostic : Diagnostic) :
    Proceeds ctx s R ((report diagnostic : Check β α) s) :=
  Extends.move rfl rfl rfl rfl rfl rfl

theorem report_bind (diagnostic : Diagnostic) (next : γ → Check β α) :
    Proceeds ctx s R ((Analysis.report diagnostic >>= next) s) :=
  Extends.move rfl rfl rfl rfl rfl rfl

/-- A test that has to come out false. -/
theorem reportIf {P : Prop} [Decidable P] {diagnostic : Diagnostic} {next : Unit → Check β α}
    (h : ¬P → Proceeds ctx s R (next () s)) :
    Proceeds ctx s R ((if P then Analysis.report diagnostic >>= next else next ()) s) := by
  split
  · exact report_bind diagnostic next
  · exact h ‹_›

/-- **The analysis may stop with a failure only if the backend is to blame for
it**, as far as it is a failure of the backend. -/
theorem stop {f : Fatal}
    (h : ∀ b, ctx.HasBuiltins → Informed ctx b s → Blames ctx.backend b s.transcript f) :
    Proceeds ctx s R ((stop f : Check β α) s) := ⟨.refl s, h⟩

/-- Where the analysis goes on, the type that was found is the one that was
expected. -/
theorem expect {site : Site} {expected found : Ty} {span : Span} :
    Proceeds ctx s (fun t _ => t = s ∧ found = expected) (expect site expected found span s) := by
  unfold Analysis.expect
  split
  · exact pure ⟨rfl, ‹_›⟩
  · exact report _

/-!
## Places

A place is known by the scopes without what they have captured (`Scopes.bare`),
as this is what the meaning of names depends on. A scope that is opened and
closed again leaves the place as it was, and so does the introduction of a local
in it, for those outside.
-/

/-- **A step in a scope of its own** ends in that scope, and so in its place
when that is left. -/
theorem inScope {step : Check β α} (hs : At c s)
    (hR : ∀ t a scopes, R t a → R { t with scopes } a)
    (h : ∀ t, At c.push t →
      Proceeds ctx t (fun u a => (∃ d, At d u ∧ Scopes.Inside c d) ∧ R u a) (step t)) :
    Proceeds ctx s (fun t a => At c t ∧ R t a) (inScope step s) := by
  have hpush : Extends ctx s { s with scopes := s.scopes.push } := .move rfl rfl rfl rfl rfl rfl
  have hpop (u : State β) : Extends ctx u { u with scopes := u.scopes.pop } :=
    .move rfl rfl rfl rfl rfl rfl
  have hstep := (h { s with scopes := s.scopes.push } (congrArg Scopes.push hs)).after hpush
  unfold Analysis.inScope
  generalize step { s with scopes := s.scopes.push } = r at hstep
  rcases r with ⟨a, u⟩ | ⟨- | f, u⟩
  · obtain ⟨hu, ⟨d, hd, hinside⟩, ha⟩ := hstep
    refine ⟨hu.trans (hpop u), ?_, hR u a _ ha⟩
    rw [At, Scopes.bare_pop, show u.scopes.bare = d from hd, hinside.pop]
  · exact hstep.trans (hpop u)
  · exact ⟨hstep.1.trans (hpop u), hstep.2⟩

/-- The note that an ascription is read is no part of what is known. -/
theorem inAscription {step : Check β α}
    (hR : ∀ t a inAscription, R t a → R { t with inAscription } a)
    (h : Proceeds ctx { s with inAscription := true } R (step { s with inAscription := true })) :
    Proceeds ctx s R (inAscription step s) := by
  have hin : Extends ctx s { s with inAscription := true } := .move rfl rfl rfl rfl rfl rfl
  have hout (u : State β) : Extends ctx u { u with inAscription := s.inAscription } :=
    .move rfl rfl rfl rfl rfl rfl
  have hstep := h.after hin
  unfold Analysis.inAscription
  generalize step { s with inAscription := true } = r at hstep
  rcases r with ⟨a, u⟩ | ⟨- | f, u⟩
  · exact ⟨hstep.1.trans (hout u), hR u a _ hstep.2⟩
  · exact hstep.trans (hout u)
  · exact ⟨hstep.1.trans (hout u), hstep.2⟩

/-- **A local is introduced** in the scope at hand. -/
theorem introduce {kind : Local.Kind} {name : Name} {ty : Ty} (hs : At d s)
    (hinside : Scopes.Inside c d) :
    Proceeds ctx s
      (fun t _ => ∃ d', At d' t ∧ Scopes.Inside c d' ∧
        d'.resolve = Env.bind d.resolve ⟨name, kind, ty⟩)
      (introduce kind name ty s) := by
  obtain rfl := hs
  unfold Analysis.introduce
  refine get_bind ?_
  cases hadd : s.scopes.add name (.lexical ⟨name, kind, ty⟩) with
  | ok scopes =>
    refine ⟨.move rfl rfl rfl rfl rfl rfl, scopes.bare, rfl, hinside.add hadd, ?_⟩
    rw [Scopes.resolve_bare, Scopes.resolve_bare]
    exact Scopes.resolve_add (l := ⟨name, kind, ty⟩) hadd
  | error diagnostic => exact report diagnostic

/-- **Parameters are introduced**, and the environment is the one around with
the parameters bound in it, from the first to the last. -/
theorem introduceParams (params : List (Name × Ty)) (hs : At d s) (hinside : Scopes.Inside c d) :
    Proceeds ctx s
      (fun t _ => ∃ d', At d' t ∧ Scopes.Inside c d' ∧
        d'.resolve = (Local.ofParams params).foldl Env.bind d.resolve)
      (introduceParams params s) := by
  unfold Analysis.introduceParams
  induction params generalizing s d with
  | nil => exact pure ⟨d, hs, hinside, rfl⟩
  | cons p params ih =>
    rw [List.forM_eq_forM, List.forM_cons]
    refine bind (introduce hs hinside) ?_
    rintro - t - ⟨d', hd', hinside', henv⟩
    refine (ih hd' hinside').imp ?_
    rintro u - - ⟨e, he, hinside'', henv'⟩
    exact ⟨e, he, hinside'', henv'.trans (by rw [henv]; rfl)⟩

/-! ## Requests -/

/-- **A request is made.** If it is refused then the backend is to blame. -/
theorem send {kind : Request} {subject : Subject} {text : String}
    {run : β → Except Backend.Fault α × β}
    (hrun : ∀ b, ctx.backend.respond kind text b = Backend.respond.fault? (run b)) :
    Proceeds ctx s
      (fun t a => t = s.told ctx kind subject text ∧ (run s.backend).1 = .ok a)
      (send kind subject text run s) := by
  have hrequest := Extends.request ctx s kind subject text
  have hanswer := hrun s.backend
  unfold Analysis.send
  cases hresult : run s.backend with
  | mk result b' =>
    rw [hresult] at hanswer
    cases result with
    | ok a =>
      have htold : s.told ctx kind subject text = { s with
          backend := b'
          transcript := s.transcript ++ [⟨kind, text, subject, true⟩]
          moments := s.now :: s.moments } := by
        rw [State.told, hanswer]
        rfl
      exact ⟨htold ▸ hrequest true, htold.symm, rfl⟩
    | error f =>
      have hfalse := hrequest false
      rw [hanswer] at hfalse
      refine ⟨hfalse, fun b hall hs => .refused rfl rfl ?_⟩
      rw [← hs.backend, hanswer]
      rfl

end Proceeds

end Stagewise.Analysis
