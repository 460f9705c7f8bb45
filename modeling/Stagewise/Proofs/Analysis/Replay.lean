import Stagewise.Proofs.Analysis.Recorded
import Stagewise.Proofs.Term.Globals

/-!
# Replaying an analysis

Where an analysis has succeeded, let another one go through the same
declarations in another order. It asks for types at other times. But whatever it
checks was checked by the first one with success, and what the first one knew
then is what it has come to know in the end. As long as all that the second one
knows is that too (`Accords`), it does the same where it does the same step:
each step has the same result, and nothing else is known afterwards (`Replays`).

There is one way out of this. What is repeated in another order may come too
early, when a type that is asked for is being computed still, or when something
has to run that is not defined. The second analysis has met a defect of the
compiler then, and has refused nothing.
-/

namespace Stagewise.Analysis

open Source (Expr Invocation)

variable {β α γ μ : Type} {s t s' t' : State β}

/-! ## Two analyses -/

/-- **Two analyses of the same declarations**, which may stand in different
orders. They are told apart by what they work with, and it is known where the
first one has ended. -/
structure Reordering (β : Type) where
  first : Context β
  second : Context β
  /-- The state in which the first one has ended. -/
  last : State β
  /-- What backends reply. -/
  table : String → Except Backend.Fault Data
  entries : first.declarations.entries.Perm second.declarations.entries
  options : second.options = first.options
  replies : first.backend.Replies table
  replies' : second.backend.Replies table

namespace Reordering

variable {r : Reordering β} {Q Q' : State β → Prop}

/-- **The second analysis accords with the first**: it knows nothing but what
that has come to know, and nothing was refused. -/
structure Accords (r : Reordering β) (s : State β) : Prop where
  tidy : Tidy r.second r.table s
  within : Within s r.last
  failed : s.failed = []
  reports : s.reports = []

/-- **A state of the first analysis beside one of the second**: they are in the
same place. -/
structure Beside (r : Reordering β) (s s' : State β) : Prop where
  scopes : s.scopes.Like s'.scopes
  inAscription : s'.inAscription = s.inAscription
  accords : r.Accords s'

/-- **A step repeats a result** that the first analysis got to in `t`, or it
comes too early. -/
inductive Repeats (r : Reordering β) (a : α) (t : State β) :
    EStateM.Result Halt (State β) α → Prop where
  | same {t' : State β} (beside : r.Beside t t') : Repeats r a t (.ok a t')
  | early {e : Internal} {t' : State β} (failed : t'.failed = []) :
    Repeats r a t (.error (.fatal (.internal e)) t')

/-- **A step replays another one** that the first analysis takes in `s`. The one
keeps the records, and if it succeeds then the other repeats its result, in a
state that has a property. -/
structure Replays (r : Reordering β) (Q : State β → Prop) (s : State β) (x y : Check β α) :
    Prop where
  keeps : Survives (Kept r.first r.table s) (x s)
  repeats : ∀ a t, x s = .ok a t → Tidy r.first r.table s → Within t r.last →
    ∀ s', Q s' → r.Beside s s' → r.Repeats a t (y s')

/-- A step replays another one wherever that is taken. -/
def Replay (r : Reordering β) {α : Type} (x y : Check β α) : Prop :=
  ∀ s, r.Replays (fun _ => True) s x y

/-! ## States -/

/-- Most of what an analysis writes down has nothing to do with according. -/
theorem Accords.move (h : r.Accords s) {backend : β} {scopes : Scopes} {transcript : List Exchange}
    {inAscription : Bool} {active inProgress : List String} {resolutions : List Resolution}
    {moments : List Moment} {foldings : List (Term × Value)} {expansions : List (String × Data)}
    (hscopes : scopes.isolated = s.scopes.isolated) :
    r.Accords { s with
      backend, scopes, transcript, inAscription, active, inProgress, resolutions, moments,
      foldings, expansions } where
  tidy := ⟨h.tidy.cached, h.tidy.valued, hscopes.trans h.tidy.base⟩
  within := h.within
  failed := h.failed
  reports := h.reports

/-- To define something is not to know more of it. -/
theorem Accords.define (h : r.Accords s) (name : String) :
    r.Accords { s with defined := s.defined ++ [name] } where
  tidy := h.tidy.define name
  within := h.within
  failed := h.failed
  reports := h.reports

/-- A reply is kept. It is one of the table, which both have in common. -/
theorem Accords.cache (h : r.Accords s) {text : String} {d : Data} (hreply : r.table text = .ok d) :
    r.Accords { s with cache := s.cache.insert text d } where
  tidy := h.tidy.cache hreply
  within := h.within
  failed := h.failed
  reports := h.reports

/-- Both analyses go on in their places. -/
theorem Beside.move (h : r.Beside s s') {backend : β} {transcript : List Exchange}
    {inProgress : List String} {resolutions : List Resolution} {moments : List Moment}
    {foldings : List (Term × Value)} {expansions : List (String × Data)}
    (hscopes : t.scopes = s.scopes) (hascription : t.inAscription = s.inAscription) :
    r.Beside t { s' with
      backend, transcript, inProgress, resolutions, moments, foldings, expansions } where
  scopes := hscopes ▸ h.scopes
  inAscription := h.inAscription.trans hascription.symm
  accords := h.accords.move rfl

/-- States that are in the same place as a third are in the same place. -/
theorem Beside.trans (h : r.Beside s s') (h' : r.Beside s' t') : r.Beside s t' where
  scopes := h.scopes.trans h'.scopes
  inAscription := h'.inAscription.trans h.inAscription
  accords := h'.accords

/-- A sequence repeats a result if its steps do. If the first comes too early
then so does the whole. -/
theorem Repeats.bind {x : Check β α} {f : α → Check β γ} {a : α} {c : γ} {u : State β}
    (h : r.Repeats a t (x s'))
    (hnext : ∀ t', x s' = .ok a t' → r.Beside t t' → r.Repeats c u (f a t')) :
    r.Repeats c u ((x >>= f) s') := by
  generalize hx : x s' = y at h
  cases h with
  | same hbeside =>
    rw [bind_of_ok hx]
    exact hnext _ hx hbeside
  | early hfailed =>
    rw [bind_of_error hx]
    exact .early hfailed

theorem Repeats.trans {a : α} {y : EStateM.Result Halt (State β) α} (h : r.Repeats a t y)
    (hbeside : r.Beside s t) : r.Repeats a s y := by
  cases h with
  | same h => exact .same (hbeside.trans h)
  | early h => exact .early h

/-- What was repeated in a place of its own is left. -/
theorem Repeats.leaving {leave leave' : State β → State β} {a : α}
    {y : EStateM.Result Halt (State β) α} (h : r.Repeats a t y)
    (hbeside : ∀ t', r.Beside t t' → r.Beside (leave t) (leave' t'))
    (hfailed : ∀ t', (leave' t').failed = t'.failed) :
    r.Repeats a (leave t) (leaving leave' y) := by
  cases h with
  | same h => exact .same (hbeside _ h)
  | early h => exact .early ((hfailed _).trans h)

/-!
## Steps

The rules are stated for one state of the first analysis, and all states of the
second beside it. For a sequence, the first analysis is followed through its
steps, and each time the second has to be shown to do the same from wherever it
is. The property `Q` is what the second analysis has seen to by itself, and
could not be told from the first.
-/

namespace Replays

/-- A step that succeeds, and is repeated. -/
theorem of_ok {x y : Check β α} {a : α} (hx : x s = .ok a t) (hkept : Kept r.first r.table s t)
    (hy : Tidy r.first r.table s → Within t r.last → ∀ s', Q s' → r.Beside s s' →
      ∃ t', y s' = .ok a t' ∧ r.Beside t t') : r.Replays Q s x y where
  keeps := by
    rw [hx]
    exact hkept
  repeats b u hu hs hwithin s' hs' hbeside := by
    obtain ⟨rfl, rfl⟩ := EStateM.Result.ok.inj (hx.symm.trans hu)
    obtain ⟨t', ht', hbeside'⟩ := hy hs hwithin s' hs' hbeside
    rw [ht']
    exact .same hbeside'

/-- A step that does not succeed has nothing to be repeated. -/
theorem of_error {x : Check β α} {e : Halt} (hx : x s = .error e t)
    (hkept : e = .diagnostics → Kept r.first r.table s t) (y : Check β α) :
    r.Replays Q s x y where
  keeps := by
    rw [hx]
    cases e with
    | diagnostics => exact hkept rfl
    | fatal f => trivial
  repeats a u hu := by
    rw [hx] at hu
    cases hu

/-- **A step goes on like another one** from a later state, in both analyses.
The second one may turn out to be too early. -/
theorem after {x y x' y' : Check β α} (h : r.Replays Q' t x y) (hst : Kept r.first r.table s t)
    (hx : x' s = x t)
    (hy : ∀ s', Q s' → r.Beside s s' → (∃ t', Q' t' ∧ r.Beside t t' ∧ y' s' = y t') ∨
      ∃ e, y' s' = .error (.fatal (.internal e)) s') : r.Replays Q s x' y' where
  keeps := by
    have hkeeps := h.keeps
    rw [hx]
    generalize x t = end' at hkeeps
    rcases end' with ⟨a, u⟩ | ⟨- | e, u⟩
    · exact hst.trans hkeeps
    · exact hst.trans hkeeps
    · trivial
  repeats a u hu hs hwithin s' hs' hbeside := by
    obtain ⟨t', ht', hbeside', heq⟩ | ⟨e, he⟩ := hy s' hs' hbeside
    · rw [heq]
      exact h.repeats a u (hx ▸ hu) (hst.tidy hs) hwithin t' ht' hbeside'
    · rw [he]
      exact .early hbeside.accords.failed

/-- A step may be replaced by one that does the same, or by one that comes too
early in the second analysis. -/
theorem congr {x y x' y' : Check β α} (h : r.Replays Q s x y) (hx : x' s = x s)
    (hy : ∀ s', Q s' → r.Beside s s' → y' s' = y s' ∨
      ∃ e, y' s' = .error (.fatal (.internal e)) s') : r.Replays Q s x' y' :=
  h.after (.refl s) hx fun s' hs' hbeside =>
    (hy s' hs' hbeside).imp_left fun heq => ⟨s', hs', hbeside, heq⟩

/-- A property of the second state may be assumed that was not needed. -/
theorem imp {x y : Check β α} (h : r.Replays Q s x y) (hQ : ∀ s', Q' s' → Q s') :
    r.Replays Q' s x y where
  keeps := h.keeps
  repeats a t ht hs hwithin s' hs' hbeside := h.repeats a t ht hs hwithin s' (hQ s' hs') hbeside

/-- **A sequence is replayed** step by step. What the first step sees to in the
second analysis is there for the next one. -/
theorem bindWith {x y : Check β α} {f g : α → Check β γ} {R : α → State β → State β → Prop}
    (h : r.Replays Q s x y)
    (hR : ∀ a t s' t', x s = .ok a t → Tidy r.first r.table s → Q s' → r.Accords s' →
      y s' = .ok a t' → R a t t')
    (hnext : ∀ a t, x s = .ok a t → Kept r.first r.table s t → r.Replays (R a t) t (f a) (g a)) :
    r.Replays Q s (x >>= f) (y >>= g) where
  keeps := h.keeps.bind fun a t ht hkept => (hnext a t ht hkept).keeps
  repeats c u hu hs hwithin s' hs' hbeside := by
    cases hx : x s with
    | error e t =>
      rw [bind_of_error hx] at hu
      cases hu
    | ok a t =>
      rw [bind_of_ok hx] at hu
      have hkept := h.keeps.of_eq_ok hx
      have hnext := hnext a t hx hkept
      have hlater := hnext.keeps.of_eq_ok hu
      refine (h.repeats a t hx hs (hlater.within.trans hwithin) s' hs' hbeside).bind
        fun t' ht' hbeside' => ?_
      exact hnext.repeats c u hu (hkept.tidy hs) hwithin t'
        (hR a t s' t' hx hs hs' hbeside.accords ht') hbeside'

theorem bind {x y : Check β α} {f g : α → Check β γ} (h : r.Replays Q s x y)
    (hnext : ∀ a t, x s = .ok a t → Kept r.first r.table s t →
      r.Replays (fun _ => True) t (f a) (g a)) : r.Replays Q s (x >>= f) (y >>= g) :=
  h.bindWith (R := fun _ _ _ => True) (fun _ _ _ _ _ _ _ _ _ => trivial) hnext

theorem pure (a : α) : r.Replays Q s (Pure.pure a) (Pure.pure a) :=
  of_ok rfl (.refl s) fun _ _ s' _ hbeside => ⟨s', rfl, hbeside⟩

/-- **What the first analysis reports need not be replayed**, since only steps
that succeed are. -/
theorem report (d : Diagnostic) (y : Check β α) : r.Replays Q s (Analysis.report d) y :=
  of_error (x := Analysis.report d) rfl (fun _ => .still) y

theorem stop (f : Fatal) (y : Check β α) : r.Replays Q s (Analysis.stop f) y :=
  of_error (x := Analysis.stop f) rfl (fun h => by cases h) y

/-- A test that has to come out false. -/
theorem reportIf {P : Prop} [Decidable P] {d : Diagnostic} {f g : Unit → Check β α}
    (h : r.Replays Q s (f ()) (g ())) :
    r.Replays Q s (if P then Analysis.report d >>= f else f ())
      (if P then Analysis.report d >>= g else g ()) := by
  split
  · exact of_error (x := Analysis.report d >>= f) rfl (fun _ => .still) _
  · exact h

/-- A step in a place of its own. -/
theorem place {x y x' y' : Check β α} {leave : State β → State β} (h : r.Replays Q' t x y)
    (hx : x' s = leaving leave (x t)) (hkept : ∀ u, Kept r.first r.table t u →
      Kept r.first r.table s (leave u)) (htidy : Tidy r.first r.table s → Tidy r.first r.table t)
    (hwithin : ∀ u, Within u (leave u))
    (hy : ∀ s', Q s' → r.Beside s s' → ∃ t' leave', Q' t' ∧ r.Beside t t' ∧
      y' s' = leaving leave' (y t') ∧ (∀ u u', r.Beside u u' → r.Beside (leave u) (leave' u')) ∧
      ∀ u', (leave' u').failed = u'.failed) : r.Replays Q s x' y' where
  keeps := by
    rw [hx]
    exact h.keeps.leaving hkept
  repeats a u hu hs hwithin' s' hs' hbeside := by
    obtain ⟨t', leave', ht', hbeside', heq, hleave, hfailed⟩ := hy s' hs' hbeside
    rw [hx] at hu
    rw [heq]
    cases hv : x t with
    | error e v =>
      rw [hv] at hu
      cases hu
    | ok a' v =>
      rw [hv] at hu
      cases hu
      refine (h.repeats a v hv (htidy hs) ((hwithin v).trans hwithin') t' ht' hbeside').leaving
        (fun u' => hleave v u') hfailed

/-- A scope is opened by both, and closed by both. -/
theorem inScope {x y : Check β α}
    (h : r.Replays (fun _ => True) { s with scopes := s.scopes.push } x y) :
    r.Replays Q s (inScope x) (inScope y) := by
  have hpush : Kept r.first r.table s { s with scopes := s.scopes.push } := .move rfl
  refine h.place (inScope_apply x s) (fun u hu => ?_) hpush.tidy (fun u => .of_eq rfl rfl)
    fun s' _ hbeside => ?_
  · have hpop : Kept r.first r.table u { u with scopes := u.scopes.pop } := .move rfl
    exact hpush.trans (hu.trans hpop)
  · refine ⟨_, _, trivial, ?_, inScope_apply y s', fun u u' hu => ?_, fun _ => rfl⟩
    · exact ⟨hbeside.scopes.push, hbeside.inAscription, hbeside.accords.move rfl⟩
    · exact ⟨hu.scopes.pop, hu.inAscription, hu.accords.move rfl⟩

theorem inAscription {x y : Check β α}
    (h : r.Replays (fun _ => True) { s with inAscription := true } x y) :
    r.Replays Q s (inAscription x) (inAscription y) := by
  refine h.place (inAscription_apply x s) (fun u hu => hu.ascription)
    (fun hs => ⟨hs.cached, hs.valued, hs.base⟩) (fun u => .of_eq rfl rfl) fun s' _ hbeside => ?_
  refine ⟨_, _, trivial, ?_, inAscription_apply y s', fun u u' hu => ?_, fun _ => rfl⟩
  · exact ⟨hbeside.scopes, rfl, hbeside.accords.move rfl⟩
  · exact ⟨hu.scopes, hbeside.inAscription, hu.accords.move rfl⟩

/-- A local that could be introduced by the first can be by the second. The
scopes differ in what they have captured at most. -/
theorem introduce (kind : Local.Kind) (name : Name) (ty : Ty) :
    r.Replays Q s (introduce kind name ty) (introduce kind name ty) := by
  cases h : s.scopes.add name (.lexical ⟨name, kind, ty⟩) with
  | ok scopes =>
    refine of_ok (introduce_of_ok h) (.move (Scopes.isolated_add h)) fun _ _ s' _ hbeside => ?_
    obtain ⟨scopes', h', hlike⟩ := hbeside.scopes.add h
    exact ⟨_, introduce_of_ok h', hlike, hbeside.inAscription,
      hbeside.accords.move (Scopes.isolated_add h')⟩
  | error d => exact of_error (introduce_of_error h) (fun _ => .still) _

/-- What a closure has captured is the same, as both have looked up the same
names since its scope was opened. -/
theorem capturedNames : r.Replays Q s capturedNames capturedNames := by
  refine of_ok rfl (.refl s) fun _ _ s' _ hbeside => ⟨s', ?_, hbeside⟩
  have happly (s : State β) : Analysis.capturedNames s
      = .ok (s.scopes.current.lexicalCaptures.map (·.name)) s := rfl
  rw [happly s', hbeside.scopes.current]

end Replays

/-- **Replaying is kept by the operations of steps.** -/
theorem congruence_replay (r : Reordering β) :
    Congruence (r.Replay : {α : Type} → Check β α → Check β α → Prop) where
  pure a _ := .pure a
  bind hstep hnext s := (hstep s).bind fun a t _ _ => hnext a t
  report d _ := .report d _
  inScope hstep _ := .inScope (hstep _)
  introduce kind name ty _ := .introduce kind name ty
  capturing hstep _ :=
    .inScope ((hstep _).bind fun _ _ _ _ => .bind .capturedNames fun _ _ _ _ => .pure _)

/-! ## Requests -/

/-- Two requests that get the same answer. -/
theorem replays_send {kind : Request} {subject subject' : Subject} {text text' : String}
    {run run' : β → Except Backend.Fault α × β} (h : ∀ b b', (run b).1 = (run' b').1) :
    r.Replays Q s (send kind subject text run) (send kind subject' text' run') := by
  cases hanswer : (run s.backend).1 with
  | ok a =>
    refine .of_ok (send_of_ok hanswer) .still fun _ _ s' _ hbeside => ?_
    exact ⟨_, send_of_ok ((h _ _).symm.trans hanswer), hbeside.move rfl rfl⟩
  | error f => exact .of_error (send_of_error hanswer) (fun h => by cases h) _

theorem replays_decoded (d : Data) : r.Replays Q s (decoded d) (decoded d) := by
  unfold decoded
  cases Value.decode [] d with
  | ok v => exact .pure v
  | error e => exact .stop _ _

theorem replays_asType (v : Value) : r.Replays Q s (asType v) (asType v) := by
  cases v with
  | type ty => exact .pure ty
  | _ => exact .stop _ _

/-- **A term is evaluated by both**, and the reply is that of the table, or it
is too early for the second: something that the term refers to is under analysis
there and not defined yet. -/
theorem replays_evaluate (e : Term) :
    r.Replays Q s (evaluate r.first e) (evaluate r.second e) := by
  cases hfind : e.globals.find? (· ∉ s.defined) with
  | some x => exact .of_error (evaluate_of_early hfind) (fun h => by cases h) _
  | none =>
    have hsend : r.Replays Q s
        (send .evaluate (.term e) e.lower.text (r.first.backend.evaluate e.lower.text) >>= decoded)
        (send .evaluate (.term e) e.lower.text (r.second.backend.evaluate e.lower.text)
          >>= decoded) :=
      (replays_send fun b b' => (r.replies.evaluate _ b).trans (r.replies'.evaluate _ b').symm).bind
        fun d t _ _ => replays_decoded d
    refine hsend.congr (evaluate_of_defined hfind) fun s' _ _ => ?_
    cases hfind' : e.globals.find? (· ∉ s'.defined) with
    | some x => exact .inr ⟨_, evaluate_of_early hfind'⟩
    | none => exact .inl (evaluate_of_defined hfind')

/-- What is asked of an expander was asked before, or the reply is the same. -/
theorem Beside.expansion (h : r.Beside s s') {text : String} {d : Data}
    (hreply : r.table text = .ok d) (binding : Binding) :
    ∃ t', expansion r.second binding text s' = .ok d t' ∧ r.Beside s t' := by
  cases hget : s'.cache.get? text with
  | some d' =>
    obtain rfl : d' = d :=
      Except.ok.inj ((h.accords.tidy.cached _ _ hget).symm.trans hreply)
    exact ⟨_, expansion_of_known hget, h.move rfl rfl⟩
  | none =>
    have hanswer := (r.replies'.evaluate text s'.backend).trans hreply
    refine ⟨_, (expansion_of_unknown hget).trans (bind_of_ok (send_of_ok hanswer) _), ?_⟩
    exact ⟨h.scopes, h.inAscription, Accords.cache (h.accords.move rfl) hreply⟩

/-- An expansion is known, or asked for. What is kept was a reply of the
table. -/
theorem replays_expansion (binding : Binding) (text : String) :
    r.Replays Q s (expansion r.first binding text) (expansion r.second binding text) := by
  cases hget : s.cache.get? text with
  | some d =>
    refine .of_ok (expansion_of_known hget) .still fun hs _ s' _ hbeside => ?_
    obtain ⟨t', ht', hbeside'⟩ := hbeside.expansion (hs.cached _ _ hget) binding
    exact ⟨t', ht', hbeside'.scopes, hbeside'.inAscription, hbeside'.accords⟩
  | none =>
    have hanswer := r.replies.evaluate text s.backend
    cases hreply : r.table text with
    | ok d =>
      rw [hreply] at hanswer
      refine .of_ok ((expansion_of_unknown hget).trans (bind_of_ok (send_of_ok hanswer) _))
        (Kept.trans .still (.cache hreply)) fun _ _ s' _ hbeside => ?_
      obtain ⟨t', ht', hbeside'⟩ := hbeside.expansion hreply binding
      exact ⟨t', ht', hbeside'.scopes, hbeside'.inAscription, hbeside'.accords⟩
    | error f =>
      rw [hreply] at hanswer
      exact .of_error ((expansion_of_unknown hget).trans (bind_of_error (send_of_error hanswer) _))
        (fun h => by cases h) _

theorem expandsAlike_replay (r : Reordering β) : ExpandsAlike r.Replay r.first r.second where
  defined d e x y next s := by
    by_cases h : d ∈ s.defined
    · refine (next s).congr (defined_of_mem h) fun s' _ _ => ?_
      by_cases h' : d ∈ s'.defined
      · exact .inl (defined_of_mem h')
      · exact .inr ⟨e, defined_of_not_mem h'⟩
    · exact .of_error (defined_of_not_mem h) (fun h => by cases h) _
  expansion binding text _ := replays_expansion binding text

/-!
## Names and ascriptions

That a value is not known is as much a piece of knowledge as that it is. A term
may fold when a constant has its value, and has to be evaluated as long as it
has none. So the two analyses could part here, if the value of a constant came
later than its type. It does not: a constant publishes both at once, and in both
analyses the type was asked for before the term was folded.
-/

/-- **A name is looked up by both**, in scopes that are alike, and is found to
be the same. -/
theorem replay_typeOf {demand demand' : String → Check β Ty}
    (h : ∀ x, r.Replay (demand x) (demand' x)) (name : Name) :
    r.Replay (typeOf demand name) (typeOf demand' name) := by
  intro s
  cases hget : s.scopes.get name.text with
  | none => exact .of_error (typeOf_of_none hget) (fun _ => .still) _
  | some found =>
    obtain ⟨binding, scopes⟩ := found
    have hkept : Kept r.first r.table s (s.found name.text binding scopes) :=
      .move (Scopes.isolated_get hget)
    have hfound (s' : State β) (hbeside : r.Beside s s') :
        ∃ scopes', s'.scopes.get name.text = some (binding, scopes') ∧
          r.Beside (s.found name.text binding scopes) (s'.found name.text binding scopes') := by
      obtain ⟨scopes', hget', hlike⟩ := hbeside.scopes.get hget
      exact ⟨scopes', hget', hlike, hbeside.inAscription,
        hbeside.accords.move (Scopes.isolated_get hget')⟩
    cases binding with
    | lexical l =>
      refine .of_ok (typeOf_of_lexical hget) hkept fun _ _ s' _ hbeside => ?_
      obtain ⟨scopes', hget', hbeside'⟩ := hfound s' hbeside
      exact ⟨_, typeOf_of_lexical hget', hbeside'⟩
    | global x =>
      have hdemand := (congruence_replay r).bind (h x) fun ty =>
        (congruence_replay r).pure (Binding.global x, ty)
      refine (hdemand _).after hkept (typeOf_of_global hget) fun s' _ hbeside => ?_
      obtain ⟨scopes', hget', hbeside'⟩ := hfound s' hbeside
      exact .inl ⟨_, trivial, hbeside', typeOf_of_global hget'⟩

/-- What both analyses know of the value of a declaration is the same. -/
theorem Accords.lookup_eq (h : r.Accords s') (hs : Within s r.last) {x : String}
    (hx : ∃ ty, Published s x ty) (hx' : ∃ ty, Published s' x ty) :
    s.values.lookup x = s'.values.lookup x := by
  obtain ⟨ty, hty⟩ := hx
  obtain ⟨ty', hty'⟩ := hx'
  exact (hs x ty hty).2.symm.trans (h.within x ty' hty').2

/-- **An ascription folds alike** if all it refers to has a type in both
analyses: whether there is a value is then known to both. -/
theorem replays_folded {e : Term} (he : ∀ x ∈ e.globals, ∃ ty, Published s x ty) :
    r.Replays (fun s' => ∀ x ∈ e.globals, ∃ ty, Published s' x ty) s (folded r.first e)
      (folded r.second e) := by
  refine .of_ok (folded_apply r.first e s) .still fun _ hwithin s' he' hbeside => ?_
  have hvalues (x : String) (hx : x ∈ e.globals) : s.values.lookup x = s'.values.lookup x :=
    hbeside.accords.lookup_eq (s := s) hwithin (he x hx) (he' x hx)
  have hfolded : r.second.foldedTo? s'.values e = r.first.foldedTo? s.values e := by
    rw [Context.foldedTo?, Context.foldedTo?, r.options, Fold.term_congr e hvalues]
  rw [folded_apply, hfolded]
  exact ⟨_, rfl, hbeside.move rfl rfl⟩

theorem replays_foldedBlock {b : Term.Block} (hb : ∀ x ∈ b.globals, ∃ ty, Published s x ty) :
    r.Replays (fun s' => ∀ x ∈ b.globals, ∃ ty, Published s' x ty) s (foldedBlock r.first b)
      (foldedBlock r.second b) := by
  refine .of_ok (foldedBlock_apply r.first b s) .still fun _ hwithin s' hb' hbeside => ?_
  have hvalues (x : String) (hx : x ∈ b.globals) : s.values.lookup x = s'.values.lookup x :=
    hbeside.accords.lookup_eq (s := s) hwithin (hb x hx) (hb' x hx)
  rw [foldedBlock_apply, r.options, Fold.block_congr b hvalues]
  exact ⟨_, rfl, hbeside.move rfl rfl⟩

theorem replays_expect (site : Site) (expected found : Ty) (span : Span) :
    r.Replays Q s (expect site expected found span) (expect site expected found span) :=
  ((congruence_replay r).expect site expected found span s).imp fun _ _ => trivial

end Reordering

section

variable {ctx : Context β} {demand : String → Check β Ty}
  {expand : Span → μ → Option Ty → Check β Term}

/-- What an ascription refers to has a type. -/
theorem published_of_inAscription (h : Provides ctx demand expand) {e : Expr μ} {hint : Option Ty}
    {term : Term} (ht : inAscription (infer ctx demand expand e hint) s = .ok term t) :
    ∀ x ∈ term.globals, ∃ ty, Published t x ty := by
  have hterm : Term.Typed (Published t) s.scopes.bare.resolve term :=
    ((Proceeds.inAscription (R := Yields s.scopes.bare) (fun _ _ _ h => h)
      (infer_proceeds h rfl e _)).of_eq_ok ht).2.2
  exact Term.WellTyped.of_mem_globals term hterm.wellTyped

/-- What a block refers to has a type. -/
theorem published_of_inScope (h : Provides ctx demand expand) {b : Source.Block μ}
    {hint : Option Ty} {body : Term.Block}
    (ht : inScope (checkBlock ctx demand expand b hint) s = .ok body t) :
    Extends ctx s t ∧ ∀ x ∈ body.globals, ∃ ty, Published t x ty := by
  have hbody := (Proceeds.inScope (R := fun t (b : Term.Block) => ∃ E, b.Typed (Published t) E)
    (c := s.scopes.bare) rfl (fun _ _ _ h => h) fun u hu =>
      (checkBlock_proceeds h hu b hint).imp fun _ _ _ hy =>
        ⟨⟨_, hy.1, Scopes.inside_push _⟩, _, hy.2⟩).of_eq_ok ht
  obtain ⟨hst, -, E, hbody⟩ := hbody
  exact ⟨hst, Term.Block.WellTyped.of_mem_globals body hbody.wellTyped⟩

end

namespace Reordering

variable {r : Reordering β} {Q Q' : State β → Prop}

section

variable {demand demand' : String → Check β Ty}
  {expand expand' : Span → μ → Option Ty → Check β Term}

/-- **Ascriptions are replayed** if the steps that check them are. -/
theorem replay_ascribed (hp : Provides r.first demand expand)
    (hp' : Provides r.second demand' expand') (e : Expr μ)
    (h : r.Replay (infer r.first demand expand e (some .type))
      (infer r.second demand' expand' e (some .type))) (span : Span) :
    r.Replay (ascribed r.first span (infer r.first demand expand e (some .type)))
      (ascribed r.second span (infer r.second demand' expand' e (some .type))) := by
  intro s
  rw [ascribed_eq, ascribed_eq]
  refine .bindWith (R := fun term _ t' => ∀ x ∈ term.globals, ∃ ty, Published t' x ty)
    (.inAscription (h _)) (fun _ _ _ _ _ _ _ _ ht' => published_of_inAscription hp' ht')
    fun term t ht _ => ?_
  have hterm := published_of_inAscription hp ht
  refine .bindWith (R := fun _ _ t' => ∀ x ∈ term.globals, ∃ ty, Published t' x ty)
    (replays_expect ..) (fun _ _ s' t' _ _ hs' _ ht' => eq_of_expect ht' ▸ hs') fun _ u hu _ => ?_
  obtain rfl := eq_of_expect hu
  refine .bind (replays_folded hterm) fun v w _ _ => ?_
  refine .bind ?_ fun v _ _ _ => replays_asType v
  cases v with
  | none => exact replays_evaluate term
  | some v => exact .pure v

end

/-- **The checking of trees is replayed** if asking for types is. -/
theorem corresponds_replay {demand demand' : String → Check β Ty} (hd : Demands r.first demand)
    (hd' : Demands r.second demand') (h : ∀ x, r.Replay (demand x) (demand' x)) :
    Corresponds r.Replay r.first r.second demand demand' (expand r.first demand)
      (expand r.second demand') where
  typeOf := replay_typeOf h
  ascribed e he := replay_ascribed (provides_expand hd) (provides_expand hd') e he e.span
  expand := (congruence_replay r).expand (expandsAlike_replay r) (replay_typeOf h) fun e hint =>
    (congruence_replay r).infer ⟨replay_typeOf h,
      fun e he => replay_ascribed ⟨hd, fun _ _ _ m => m.elim⟩ ⟨hd', fun _ _ _ m => m.elim⟩ e he
        e.span,
      fun _ m _ => m.elim⟩ e hint

end Reordering

end Stagewise.Analysis
