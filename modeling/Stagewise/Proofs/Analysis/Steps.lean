import Stagewise.Analysis.Declarations
import Stagewise.Backend.Buffer

/-!
# Steps that succeed

A step of an analysis **succeeds** if it does not halt. Whether it does, and
with what, is said by `Succeeds`: the result and the state it ends in have a
property. The rules below take such a statement apart along the steps, from the
first to the last, so that the states on the way need not be written down.
-/

namespace Stagewise.Analysis

variable {β α γ : Type} {s : State β}

/-- **A step succeeds**, with a result and in a state that have a property. -/
def Succeeds (step : Check β α) (s : State β) (P : α → State β → Prop) : Prop :=
  ∃ a t, step s = .ok a t ∧ P a t

namespace Succeeds

/-! ## The monad -/

theorem of_eq_ok {step : Check β α} {a : α} {t : State β} {P : α → State β → Prop}
    (h : step s = .ok a t) (hP : P a t) : Succeeds step s P := ⟨a, t, h, hP⟩

/-- A property of the end may be weakened. -/
theorem imp {step : Check β α} {P Q : α → State β → Prop} (h : Succeeds step s P)
    (hPQ : ∀ a t, P a t → Q a t) : Succeeds step s Q := by
  obtain ⟨a, t, hstep, hP⟩ := h
  exact ⟨a, t, hstep, hPQ a t hP⟩

/-- A sequence succeeds if its first step does, and the rest from where that
ends. -/
theorem bind {step : Check β α} {next : α → Check β γ} {P : γ → State β → Prop}
    (h : Succeeds step s (fun a t => Succeeds (next a) t P)) : Succeeds (step >>= next) s P := by
  obtain ⟨a, t, hstep, b, u, hnext, hP⟩ := h
  refine ⟨b, u, ?_, hP⟩
  show EStateM.bind step next s = _
  rw [EStateM.bind, hstep]
  exact hnext

theorem pure {a : α} {P : α → State β → Prop} (h : P a s) : Succeeds (pure a) s P := ⟨a, s, rfl, h⟩

theorem modify {f : State β → State β} {P : Unit → State β → Prop} (h : P () (f s)) :
    Succeeds (modify f) s P := ⟨(), f s, rfl, h⟩

theorem get_bind {next : State β → Check β γ} {P : γ → State β → Prop} (h : Succeeds (next s) s P) :
    Succeeds (get >>= next) s P := bind ⟨s, s, rfl, h⟩

/-! ## Places -/

/-- What is done in a scope of its own is done with one scope more, and that is
taken off again. -/
theorem inScope {step : Check β α} {P : α → State β → Prop}
    (h : Succeeds step { s with scopes := s.scopes.push }
      (fun a t => P a { t with scopes := t.scopes.pop })) :
    Succeeds (inScope step) s P := by
  obtain ⟨a, t, hstep, hP⟩ := h
  exact ⟨a, _, by rw [Analysis.inScope, hstep], hP⟩

/-- A declaration is settled at the top level, and all that was put aside is put
back. -/
theorem settle {name : String} {step : Check β Unit} {P : Unit → State β → Prop}
    (hnew : ¬(name ∈ s.defined ∨ name ∈ s.failed))
    (h : Succeeds step
      { s with active := name :: s.active, scopes := s.scopes.isolated, inAscription := false }
      (fun _ t => P () { t with
        scopes := s.scopes
        inAscription := s.inAscription
        active := t.active.tail
        inProgress := t.inProgress.erase name })) :
    Succeeds (settle name step) s P := by
  obtain ⟨a, t, hstep, hP⟩ := h
  refine ⟨(), _, ?_, hP⟩
  rw [Analysis.settle, if_neg hnew]
  unfold atTopLevel
  rw [hstep]

/-- What is settled is left alone. -/
theorem settle_of_mem {name : String} {step : Check β Unit} {P : Unit → State β → Prop}
    (hmem : name ∈ s.defined) (hP : P () s) : Succeeds (Analysis.settle name step) s P :=
  ⟨(), s, by rw [Analysis.settle, if_pos (.inl hmem)], hP⟩

/-!
## Types on demand

Asking for a type is where one declaration leads to another. There are two ways
in which this can succeed. The type has been published, and then the state is
not touched. Or the declaration is settled first, and there must be a type when
that is done.
-/

/-- A type that is expected and found needs no report. -/
theorem expect {site : Site} {expected found : Ty} {span : Span} {P : Unit → State β → Prop}
    (hfound : found = expected) (hP : P () s) : Succeeds (expect site expected found span) s P := by
  rw [Analysis.expect, if_pos hfound]
  exact pure hP

/-- A name that refers to a declaration has the type that is demanded of it. -/
theorem typeOf {demand : String → Check β Ty} {name : Name} {d : String} {scopes : Scopes}
    {P : Binding × Ty → State β → Prop} (hget : s.scopes.get name.text = some (.global d, scopes))
    (h : Succeeds (demand d) { s with
        scopes
        resolutions := s.resolutions ++ [⟨s.active.head?, name.text, .global d⟩]
        moments := s.now :: s.moments }
      (fun ty t => P (.global d, ty) t)) :
    Succeeds (typeOf demand name) s P := by
  unfold Analysis.typeOf
  refine get_bind ?_
  rw [hget]
  exact bind ⟨(), _, rfl, bind (h.imp (fun _ _ hP => pure hP))⟩

/-- A type that was published is at hand. -/
theorem demandWith_of_published {ctx : Context β} {analyze : Declaration → Check β Unit}
    {name : String} {ty : Ty} {P : Ty → State β → Prop} (hty : s.types.lookup name = some ty)
    (hP : P ty s) : Succeeds (demandWith ctx analyze name) s P := by
  unfold demandWith
  refine get_bind ?_
  rw [hty]
  exact pure hP

/-- Otherwise the declaration is settled first. -/
theorem demandWith_of_analyze {ctx : Context β} {analyze : Declaration → Check β Unit}
    {name : String} {d : Declaration} {P : Ty → State β → Prop} (hnew : s.types.lookup name = none)
    (hfailed : name ∉ s.failed) (hprogress : name ∉ s.inProgress)
    (hd : ctx.declarations.find? name = some d)
    (h : Succeeds (analyze d) s (fun _ t => ∃ ty, t.types.lookup name = some ty ∧ P ty t)) :
    Succeeds (demandWith ctx analyze name) s P := by
  unfold demandWith
  refine get_bind ?_
  rw [hnew]
  dsimp only
  rw [if_neg hfailed, if_neg hprogress, hd]
  refine bind (h.imp (fun _ t ht => get_bind ?_))
  obtain ⟨ty, hty, hP⟩ := ht
  rw [hty]
  exact pure hP

/-- Whether folding is allowed or not, there may be nothing to fold. -/
theorem foldedBlock_of_none {ctx : Context β} {b : Term.Block} {P : Option Value → State β → Prop}
    (hnone : Fold.block s.values b = none)
    (hP : P none { s with moments := s.now :: s.moments }) :
    Succeeds (foldedBlock ctx b) s P := by
  unfold foldedBlock knownValues
  refine bind (bind (modify (get_bind (pure ?_))))
  dsimp only
  rw [hnone, ite_self]
  exact pure hP

/-!
## A program in memory

A backend that keeps the program in memory refuses nothing. So the only request
that does not succeed is to define a declaration for the second time, which the
analysis itself refuses.
-/

variable {ε : Type} {ctx : Context (Buffer ε)} {e : Option (Evaluator ε)} {s : State (Buffer ε)}
  {P : Unit → State (Buffer ε) → Prop} {subject : Subject} {text : String}

/-- A program in memory takes every declaration. -/
theorem declare (hctx : ctx.backend = Buffer.backend e)
    (h : P () { s with
      backend := s.backend.push false text
      transcript := s.transcript ++ [⟨.declare, text, subject, true⟩]
      moments := s.now :: s.moments }) :
    Succeeds (declare ctx subject text) s P :=
  of_eq_ok (by rw [Analysis.declare, hctx]; rfl) h

/-- What is not defined yet can be defined. -/
theorem define (hctx : ctx.backend = Buffer.backend e) {name : String} (hname : name ∉ s.defined)
    (h : P () { s with
      backend := s.backend.push true text
      defined := s.defined ++ [name]
      transcript := s.transcript ++ [⟨.define, text, subject, true⟩]
      moments := s.now :: s.moments }) :
    Succeeds (define ctx name subject text) s P := by
  unfold Analysis.define
  refine get_bind ?_
  rw [if_neg hname, hctx]
  exact bind (modify ⟨(), _, rfl, h⟩)

/-- A built-in is declared, defined and published, and its value may become
known. -/
theorem examineBuiltin (hctx : ctx.backend = Buffer.backend e) {b : Builtin}
    (hname : b.name ∉ s.defined)
    (h : ∀ t : State (Buffer ε), t.scopes = s.scopes → t.diagnostics = s.diagnostics →
      t.defined = s.defined ++ [b.name] → t.failed = s.failed → t.inProgress = s.inProgress →
      t.active = s.active → t.types = (b.name, b.ty) :: s.types →
      (∀ x, x ≠ b.name → t.values.lookup x = s.values.lookup x) → P () t) :
    Succeeds (examineBuiltin ctx b) s P := by
  unfold Analysis.examineBuiltin
  refine bind (declare hctx (bind (define hctx hname (bind (modify ?_)))))
  cases b.alias? with
  | none => exact pure (h _ rfl rfl rfl rfl rfl rfl rfl (fun _ _ => rfl))
  | some ty =>
    refine modify (h _ rfl rfl rfl rfl rfl rfl rfl (fun x hx => ?_))
    show List.lookup x ((b.name, Value.type ty) :: s.values) = s.values.lookup x
    rw [List.lookup_cons, beq_false_of_ne hx]

end Succeeds

end Stagewise.Analysis
