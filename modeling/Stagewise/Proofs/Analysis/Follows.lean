import Stagewise.Proofs.Analysis.Book

/-!
# Steps as courses of acts

The steps of an analysis are programs, and what they do to the state is a course
of acts. A step **follows** from a state if it gets from there to where it ends
by acts: if it succeeds it is back in the same declaration, and if it refuses
the declaration then all that is left to do is to leave it. If it stops the
analysis then it crashes.

While an expression is checked, other declarations may be analyzed, but nothing
happens to those that are under analysis already. A `Detour` is a course with
this property, and with the stack of declarations under analysis as it has to
be. Which declarations stay where they are is a list of its own: checking an
expression keeps the whole stack, examining a declaration keeps all of it but
the declaration itself.

The rules below follow the operations of steps: sequences, places, reports. A
sequence is the one that matters (`Follows.bind`), and the others are leaves.
-/

namespace Stagewise.Analysis

open Source (Expr Stmt Param)

variable {β α γ μ : Type} {ctx : Context β} {kept stack : List String} {s t u : State β}

/-! ## Detours -/

/-- **A detour**: a course after which the stack is as it should be, and some
declarations are where they were. -/
structure Detour (ctx : Context β) (kept stack : List String) (s t : State β) : Prop where
  course : Course ctx s t
  kept : ∀ x ∈ kept, ∀ p, Standing ctx s x p → Standing ctx t x p
  active : t.active = stack

/-- **The analysis is inside the declaration on top of a stack**, with its books
in order. -/
structure Checking (ctx : Context β) (stack : List String) (s : State β) : Prop where
  book : Book ctx s
  active : s.active = stack

namespace Detour

theorem refl (hs : Checking ctx stack s) : Detour ctx kept stack s s where
  course := .refl
  kept _ _ _ h := h
  active := hs.active

/-- **Detours are taken one after the other.** The stack need not be the same in
between. -/
theorem trans {stack' : List String} (h : Detour ctx kept stack s t)
    (h' : Detour ctx kept stack' t u) : Detour ctx kept stack' s u where
  course := h.course.trans h'.course
  kept x hx p hp := h'.kept x hx p (h.kept x hx p hp)
  active := h'.active

/-- After a detour the books are in order, and the stack is what it should
be. -/
theorem checking (h : Detour ctx kept stack s t) (hs : Book ctx s) : Checking ctx stack t where
  book := hs.course h.course
  active := h.active

/-- Less may be kept. -/
theorem mono {kept' : List String} (h : Detour ctx kept stack s t) (hsub : kept' ⊆ kept) :
    Detour ctx kept' stack s t :=
  { h with kept := fun x hx => h.kept x (hsub hx) }

/-- What the declaration at hand knows it knows after a detour. -/
theorem knows (h : Detour ctx kept stack s t) (hs : Checking ctx stack s) (x : String) (ty : Ty)
    (hx : Knows s x ty) : Knows t x ty := by
  have hgrows := Course.grows h.course
  refine ⟨hgrows.types x ty hx.1, fun d hd => ?_⟩
  rw [h.active, ← hs.active] at hd
  exact (hx.2 d hd).mono hgrows.resolutions

/-- To go to another place is a detour. -/
theorem move (hs : Checking ctx stack s) {scopes : Scopes} (inAscription : Bool)
    (hscopes : scopes.Faithful ctx.declarations.names) :
    Detour ctx kept stack s { s with scopes, inAscription } where
  course := .single (.move scopes inAscription hscopes)
  kept _ _ _ hp := hp.move scopes inAscription
  active := hs.active

/-- A name is looked up by one act. -/
theorem resolve (hs : Checking ctx stack s) {name : String} {binding : Binding}
    (hknown : ∀ x, binding = .global x →
      x = name ∧ ((s.types.lookup x).isSome = true ∨ x ∈ s.failed)) :
    Detour ctx kept stack s (s.resolve name binding) where
  course := .single (.resolve hknown)
  kept _ _ _ hp := hp.resolve name binding
  active := hs.active

theorem fold (hs : Checking ctx stack s) {foldings : List (Term × Value)} :
    Detour ctx kept stack s { s with moments := s.now :: s.moments, foldings } where
  course := .single .fold
  kept _ _ _ hp := hp.fold
  active := hs.active

theorem reuse (hs : Checking ctx stack s) {expansions : List (String × Data)} :
    Detour ctx kept stack s { s with expansions } where
  course := .single .reuse
  kept _ _ _ hp := hp.reuse
  active := hs.active

end Detour

/-- Terms stay well typed on the way. -/
theorem Detour.wellTyped (h : Detour ctx kept stack s t) (hs : Checking ctx stack s) {e : Term}
    (he : e.WellTyped (Knows s)) : e.WellTyped (Knows t) := he.mono (h.knows hs) e

theorem Detour.wellTypedBlock (h : Detour ctx kept stack s t) (hs : Checking ctx stack s)
    {b : Term.Block} (hb : b.WellTyped (Knows s)) : b.WellTyped (Knows t) := hb.mono (h.knows hs) b

/-- Statements stay well typed as well, as what is known only grows. -/
theorem Detour.wellTypedStmts (h : Detour ctx kept stack s t) (hs : Checking ctx stack s)
    {stmts : List Term.Stmt} (hstmts : Term.WellTypedStmts (Knows s) stmts) :
    Term.WellTypedStmts (Knows t) stmts := hstmts.mono (h.knows hs) stmts

/-!
## Places

A declaration that is refused is left right there, in the middle of whatever was
being checked. The scopes and the note about ascriptions are then put back on
the way out, without any more acts. So refusals and crashes have to be stated
for a state up to its place, and this is what the lemmas of this section are
for.
-/

/-- To refuse a declaration, it does not matter in which place the analysis
is. -/
theorem Refusal.move (h : Refusal s t) (scopes : Scopes) (inAscription : Bool) :
    Refusal { s with scopes, inAscription } { t with scopes, inAscription } := by
  cases h with
  | reported d => exact .reported (s := { s with scopes, inAscription }) d
  | inherited known failed unpublished => exact .inherited known failed unpublished

/-- The analysis stays where it is when it reports something. -/
theorem Refusal.scopes_eq (h : Refusal s t) : t.scopes = s.scopes := by
  cases h <;> rfl

/-- Where the analysis stops is of no account. -/
theorem Crash.of_same {f : Fatal} (h : Crash ctx s f t) (htranscript : u.transcript = t.transcript)
    (hresolutions : u.resolutions = t.resolutions) (hfailed : u.failed = t.failed)
    (hdiagnostics : u.diagnostics = t.diagnostics) : Crash ctx s f u := by
  have hleaves : ∀ {said resolved}, Leaves s t said resolved → Leaves s u said resolved :=
    fun hl => ⟨htranscript.trans hl.transcript, hresolutions.trans hl.resolutions,
      hfailed.trans hl.failed, hdiagnostics.trans hl.diagnostics⟩
  cases h with
  | refused due answer leaves => exact .refused due answer (hleaves leaves)
  | misanswered due answer leaves => exact .misanswered due answer (hleaves leaves)
  | misfolded typed type value other leaves =>
    exact .misfolded typed type value other (hleaves leaves)
  | early known undefined leaves => exact .early known undefined (hleaves leaves)
  | reentrant inProgress leaves => exact .reentrant inProgress (hleaves leaves)

theorem Leaves.refl (s : State β) : Leaves s s [] [] where
  transcript := (List.append_nil _).symm
  resolutions := (List.append_nil _).symm
  failed := rfl
  diagnostics := rfl

/-! ## Steps -/

theorem get_bind_apply (next : State β → Check β α) : (get >>= next) s = next s s := rfl

/-- After a step that succeeds, the next one begins where it has ended. -/
theorem bind_of_ok {step : Check β α} {a : α} (h : step s = .ok a t) (next : α → Check β γ) :
    (step >>= next) s = next a t := by
  show EStateM.bind step next s = _
  rw [EStateM.bind, h]

/-- After a step that does not, nothing is done. -/
theorem bind_of_error {step : Check β α} {e : Halt} (h : step s = .error e t)
    (next : α → Check β γ) : (step >>= next) s = .error e t := by
  show EStateM.bind step next s = _
  rw [EStateM.bind, h]

/-- **A step follows from a state**, and if it succeeds then its result has a
property. -/
def Follows (ctx : Context β) (kept stack : List String) (s : State β)
    (R : State β → α → Prop) : EStateM.Result Halt (State β) α → Prop
  | .ok a t => Detour ctx kept stack s t ∧ R t a
  | .error .diagnostics t => ∃ u, Detour ctx kept stack s u ∧ Refusal u t
  | .error (.fatal f) t => ∃ u, Course ctx s u ∧ Crash ctx u f t

namespace Follows

variable {R : State β → α → Prop} {R' : State β → γ → Prop}

/-- A step that follows from a state further on follows from here. -/
theorem after {r : EStateM.Result Halt (State β) α} (hd : Detour ctx kept stack s t)
    (h : Follows ctx kept stack t R r) : Follows ctx kept stack s R r := by
  match r, h with
  | .ok a u, h => exact ⟨hd.trans h.1, h.2⟩
  | .error .diagnostics w, ⟨u, hu, hw⟩ => exact ⟨u, hd.trans hu, hw⟩
  | .error (.fatal f) w, ⟨u, hu, hw⟩ => exact ⟨u, hd.course.trans hu, hw⟩

/-- **A sequence follows** if its first step does, and the rest from where that
ends. -/
theorem bind (hs : Checking ctx stack s) {step : Check β α} {next : α → Check β γ} {s' : State β}
    (h : Follows ctx kept stack s R (step s'))
    (hnext : ∀ a t, Detour ctx kept stack s t → Checking ctx stack t → R t a →
      Follows ctx kept stack t R' (next a t)) :
    Follows ctx kept stack s R' ((step >>= next) s') := by
  show Follows ctx kept stack s R' (EStateM.bind step next s')
  unfold EStateM.bind
  match step s', h with
  | .ok a t, h => exact (hnext a t h.1 (h.1.checking hs.book) h.2).after h.1
  | .error .diagnostics w, h => exact h
  | .error (.fatal f) w, h => exact h

/-- To look at the state changes nothing. -/
theorem get_bind {next : State β → Check β α} (h : Follows ctx kept stack s R (next t t)) :
    Follows ctx kept stack s R ((get >>= next) t) := h

theorem pure (hs : Checking ctx stack s) {a : α} (h : R s a) :
    Follows ctx kept stack s R ((pure a : Check β α) s) := ⟨.refl hs, h⟩

/-- **To report something is to refuse** the declaration at hand. -/
theorem report (hs : Checking ctx stack s) (d : Diagnostic) :
    Follows ctx kept stack s R ((report d : Check β α) s) :=
  ⟨s, .refl hs, .reported d⟩

theorem report_bind (hs : Checking ctx stack s) (d : Diagnostic) (next : γ → Check β α) :
    Follows ctx kept stack s R ((Analysis.report d >>= next) s) :=
  ⟨s, .refl hs, .reported d⟩

/-- A test that has to come out false. -/
theorem reportIf (hs : Checking ctx stack s) {c : Prop} [Decidable c] {d : Diagnostic}
    {next : Unit → Check β α} (h : ¬c → Follows ctx kept stack s R (next () s)) :
    Follows ctx kept stack s R ((if c then Analysis.report d >>= next else next ()) s) := by
  split
  · exact report_bind hs d next
  · exact h ‹_›

/-- A crash may come where the analysis is. -/
theorem stop {f : Fatal} (h : Crash ctx s f s) :
    Follows ctx kept stack s R ((stop f : Check β α) s) := ⟨s, .refl, h⟩

/-- A step in another place follows if the place is put back. -/
theorem inScope (hs : Checking ctx stack s) {step : Check β α}
    (hR : ∀ t a scopes, R t a → R { t with scopes } a)
    (h : ∀ t, Checking ctx stack t → Detour ctx kept stack s t →
      Follows ctx kept stack t R (step t)) :
    Follows ctx kept stack s R (inScope step s) := by
  have hpush : Detour ctx kept stack s { s with scopes := s.scopes.push } :=
    .move hs s.inAscription hs.book.scopes.push
  have hstep := (h _ (hpush.checking hs.book) hpush).after hpush
  unfold Analysis.inScope
  match step { s with scopes := s.scopes.push }, hstep with
  | .ok a t, ⟨ht, ha⟩ =>
    have hpop := ht.checking hs.book
    exact ⟨ht.trans (.move hpop t.inAscription hpop.book.scopes.pop), hR t a _ ha⟩
  | .error .diagnostics w, ⟨u, hu, hw⟩ =>
    have hpop := hu.checking hs.book
    have hscopes := hw.scopes_eq ▸ hpop.book.scopes.pop
    exact ⟨_, hu.trans (.move hpop w.inAscription hscopes), hw.move _ _⟩
  | .error (.fatal f) w, ⟨u, hu, hw⟩ => exact ⟨u, hu, hw.of_same rfl rfl rfl rfl⟩

/-- The note that an ascription is read is put back, however the step in it
ends. In each of the three ways there is a last act to account for this. -/
theorem inAscription (hs : Checking ctx stack s) {step : Check β α}
    (hR : ∀ t a inAscription, R t a → R { t with inAscription } a)
    (h : ∀ t, Checking ctx stack t → Detour ctx kept stack s t →
      Follows ctx kept stack t R (step t)) :
    Follows ctx kept stack s R (inAscription step s) := by
  have hinside : Detour ctx kept stack s { s with inAscription := true } :=
    .move hs true hs.book.scopes
  have hstep := (h _ (hinside.checking hs.book) hinside).after hinside
  unfold Analysis.inAscription
  match step { s with inAscription := true }, hstep with
  | .ok a t, ⟨ht, ha⟩ =>
    have hback := ht.checking hs.book
    exact ⟨ht.trans (.move hback s.inAscription hback.book.scopes), hR t a _ ha⟩
  | .error .diagnostics w, ⟨u, hu, hw⟩ =>
    have hback := hu.checking hs.book
    have hscopes := hw.scopes_eq ▸ hback.book.scopes
    exact ⟨_, hu.trans (.move hback s.inAscription hscopes), hw.move _ _⟩
  | .error (.fatal f) w, ⟨u, hu, hw⟩ => exact ⟨u, hu, hw.of_same rfl rfl rfl rfl⟩

theorem expect (hs : Checking ctx stack s) {site : Site} {expected found : Ty} {span : Span} :
    Follows ctx kept stack s (fun t _ => t = s ∧ found = expected)
      (expect site expected found span s) := by
  unfold Analysis.expect
  split
  · exact pure hs ⟨rfl, ‹_›⟩
  · exact report hs _

/-- A local is introduced under its own name. -/
theorem introduce (hs : Checking ctx stack s) {kind : Local.Kind} {name : Name} {ty : Ty} :
    Follows ctx kept stack s (fun _ _ => True) (introduce kind name ty s) := by
  unfold Analysis.introduce
  refine get_bind ?_
  cases hadd : s.scopes.add name (.lexical ⟨name, kind, ty⟩) with
  | ok scopes =>
    exact ⟨.move hs s.inAscription (hs.book.scopes.add (fun _ h => by cases h) hadd), trivial⟩
  | error d => exact report hs d

/-- Parameters are introduced one after the other. -/
theorem introduceParams (hs : Checking ctx stack s) (params : List (Name × Ty)) :
    Follows ctx kept stack s (fun _ _ => True) (introduceParams params s) := by
  unfold Analysis.introduceParams
  induction params generalizing s with
  | nil => exact pure hs trivial
  | cons p params ih =>
    rw [List.forM_eq_forM, List.forM_cons]
    exact bind hs (introduce hs) (fun _ t _ ht _ => ih ht)

end Follows

end Stagewise.Analysis
