import Mathlib.Logic.Relation
import Stagewise.Compile
import Stagewise.Proofs.Analysis.Transcript
import Stagewise.Proofs.Declaration.Lookup
import Stagewise.Proofs.Scope
import Stagewise.Proofs.Term.Typing

/-!
# The acts of an analysis

An analysis is a recursion on source trees that is interrupted, at any depth, by
the analysis of other declarations. Seen from the state it is simpler: it is a
sequence of **acts**, of which there are ten. Six of them leave the declarations
as far as they are: the analysis goes to another place, looks up a name, folds
something, has a term evaluated or text expanded, or goes back to an expansion
it has. The other four move one declaration from a **phase** to the next: it is
entered, declared, defined, or refused.

An act is allowed in some states only. Its premises say what the analysis knows
when it acts, such as that a term it has evaluated is well typed and refers to
nothing undefined, and so an invariant of the analysis is something that every
act keeps, whatever tree is being checked.

An analysis that stops ends in a state where no act was possible any more.
`Crash` lists the ways: the backend refuses a request, it gives an answer that
is none, or one of two things is needed that is not there, the type of a
declaration that is being computed or the definition of one that has to run.
-/

namespace Stagewise

/-- Whether a name is that of a built-in. -/
def Declarations.isBuiltin (ds : Declarations) (x : String) : Bool :=
  (ds.find? x).any Declaration.isBuiltin

namespace Analysis

variable {β : Type}

/-! ## Phases -/

/-- **How far a declaration has come.** -/
inductive Phase where
  /-- Nothing was done about it. -/
  | untouched
  /-- It is under analysis, and nothing was said about it. -/
  | begun
  /-- It is under analysis, and was declared. -/
  | announced
  /-- It was defined. -/
  | settled
  /-- It was refused before it was declared. -/
  | dropped
  /-- It was refused after it was declared. -/
  | abandoned
  deriving DecidableEq, Repr

namespace Phase

/-- What was said about a declaration in a phase. -/
def history : Phase → List Request
  | .untouched | .begun | .dropped => []
  | .announced | .abandoned => [.declare]
  | .settled => [.declare, .define]

/-- Whether a declaration in a phase is under analysis. -/
def isActive : Phase → Bool
  | .begun | .announced => true
  | _ => false

/-- Whether a declaration in a phase was refused. -/
def isFailed : Phase → Bool
  | .dropped | .abandoned => true
  | _ => false

/-- Whether the type of a declaration in a phase is being computed. That of a
built-in is known, and that of a function once it is declared. -/
def isOpen (builtin function : Bool) : Phase → Bool
  | .begun => !builtin
  | .announced => !builtin && !function
  | _ => false

/-- Whether a declaration in a phase has published its type. A function does
when it is declared, and others when they are defined. -/
def isPublished (function : Bool) : Phase → Bool
  | .announced | .abandoned => function
  | .settled => true
  | _ => false

end Phase

/-- **A name is in a phase**: what the state has about it is what belongs to the
phase. -/
structure Standing (ctx : Context β) (s : State β) (x : String) (p : Phase) : Prop where
  declared : p ≠ .untouched → x ∈ ctx.declarations.names
  active : x ∈ s.active ↔ p.isActive = true
  defined : x ∈ s.defined ↔ p = .settled
  failed : x ∈ s.failed ↔ p.isFailed = true
  inProgress : x ∈ s.inProgress ↔
    p.isOpen (ctx.declarations.isBuiltin x) (ctx.declarations.isFunction x) = true
  published : (s.types.lookup x).isSome = p.isPublished (ctx.declarations.isFunction x)
  history : history s.transcript x = p.history

/-! ## What is known -/

/-- **A declaration referred to a name** of the top level. -/
def Refers (resolutions : List Resolution) (d x : String) : Prop :=
  (d, x) ∈ Compile.references resolutions

/-- **The declaration at hand knows the type of another**: it has been
published, and was looked up. -/
def Knows (s : State β) (x : String) (ty : Ty) : Prop :=
  s.types.lookup x = some ty ∧ ∀ d ∈ s.active.head?, Refers s.resolutions d x

/-- The state after a name was looked up, and found. -/
def State.resolve (s : State β) (name : String) (binding : Binding) : State β :=
  { s with
    resolutions := s.resolutions ++ [⟨s.active.head?, name, binding⟩]
    moments := s.now :: s.moments }

/-- The state after an attempt to fold an ascription. -/
def State.folding (s : State β) (t : Term) (v : Option Value) : State β :=
  { s with moments := s.now :: s.moments, foldings := s.foldings ++ (v.map (t, ·)).toList }

/-- The state after a request that was accepted. -/
def State.told (ctx : Context β) (s : State β) (kind : Request) (subject : Subject)
    (text : String) : State β :=
  { s with
    backend := (ctx.backend.respond kind text s.backend).2
    transcript := s.transcript ++ [⟨kind, text, subject, true⟩]
    moments := s.now :: s.moments }

/-- **A request that may be made.** A declaration is declared once and then
defined, and what is in a tree is known. What the backend has to run is
defined. -/
inductive Due (ctx : Context β) (s : State β) : Request → Subject → String → Prop where
  | declare {x : String} {subject : Subject} {text : String} (top : s.active.head? = some x)
    (about : subject.declaration? = some x) (phase : Standing ctx s x .begun)
    (mentions : subject.mentions = []) (reads : subject.Reads .declare text) :
    Due ctx s .declare subject text
  | define {x : String} {subject : Subject} {text : String} (top : s.active.head? = some x)
    (about : subject.declaration? = some x) (phase : Standing ctx s x .announced)
    (known : ∀ y ∈ subject.mentions, ∃ ty, Knows s y ty) (reads : subject.Reads .define text) :
    Due ctx s .define subject text
  | evaluate {t : Term} (typed : t.WellTyped (Knows s)) (type : t.ty = .type)
    (defined : ∀ x ∈ t.globals, x ∈ s.defined) : Due ctx s .evaluate (.term t) t.lower.text
  | expand {m : Source.Invocation} {binding : Binding} {expected : Ty}
    (known : ∀ x, binding = .global x →
      x = m.expander.text ∧ Knows s x .expander ∧ x ∈ s.defined) :
    Due ctx s .evaluate (.expansion binding) (expansionText m expected)

/-! ## Acts -/

/-- **How a declaration comes to be entered**: at the bidding of nobody, or
because its name was looked up. -/
inductive Summons (s : State β) (x : String) : State β → Prop where
  | unbidden (idle : s.active = []) : Summons s x s
  | lookup : Summons s x (s.resolve x (.global x))

/-- **What is learned when a declaration is defined**: its type, unless that was
published before, and its value, if it is known. -/
inductive Learns (s : State β) : Declaration → Option Ty → Option Value → Prop where
  | builtin (b : Builtin) : Learns s (.builtin b) (some b.ty) (b.alias?.map .type)
  | function (f : Source.Function) : Learns s (.source (.function f)) none none
  | folded (c : Source.Constant) {body : Term.Block} {v : Value} (typed : body.WellTyped (Knows s))
    (value : Fold.block s.values body = some v) :
    Learns s (.source (.constant c)) (some body.ty) (some v)
  | computed (c : Source.Constant) (ty : Ty) : Learns s (.source (.constant c)) (some ty) none

/-- **Why a declaration is refused**: something is reported, or it refers to a
declaration that was refused before it had a type. -/
inductive Refusal (s : State β) : State β → Prop where
  | reported (d : Diagnostic) : Refusal s { s with reports := s.reports ++ [⟨s.active.head?, d⟩] }
  | inherited {x : String} (known : ∀ d ∈ s.active.head?, Refers s.resolutions d x)
    (failed : x ∈ s.failed) (unpublished : s.types.lookup x = none) : Refusal s s

/-- The state after the declaration at hand was left. -/
def State.leave (s : State β) (x : String) : State β :=
  { s with active := s.active.tail, inProgress := s.inProgress.erase x }

/-- **An act of an analysis.** -/
inductive Act (ctx : Context β) (s : State β) : State β → Prop where
  /-- Go to another place. -/
  | move (scopes : Scopes) (inAscription : Bool)
    (faithful : scopes.Faithful ctx.declarations.names) : Act ctx s { s with scopes, inAscription }
  /-- Look up a name. -/
  | resolve {name : String} {binding : Binding} (known : ∀ x, binding = .global x →
      x = name ∧ ((s.types.lookup x).isSome = true ∨ x ∈ s.failed)) :
    Act ctx s (s.resolve name binding)
  /-- Fold something. -/
  | fold {foldings : List (Term × Value)} :
    Act ctx s { s with moments := s.now :: s.moments, foldings }
  /-- Have a term evaluated. -/
  | evaluate {t : Term} {text : String} (due : Due ctx s .evaluate (.term t) text)
    (accepted : (ctx.backend.respond .evaluate text s.backend).1 = none) :
    Act ctx s (s.told ctx .evaluate (.term t) text)
  /-- Have text expanded. -/
  | expand {binding : Binding} {text : String} {d : Data}
    (due : Due ctx s .evaluate (.expansion binding) text)
    (accepted : (ctx.backend.respond .evaluate text s.backend).1 = none)
    (answer : (ctx.backend.evaluate text s.backend).1 = .ok d) :
    Act ctx s { s.told ctx .evaluate (.expansion binding) text with
      cache := s.cache.insert text d
      expansions := s.expansions ++ [(text, d)] }
  /-- Expand text that was expanded before. -/
  | reuse {expansions : List (String × Data)} : Act ctx s { s with expansions }
  /-- Enter a declaration. -/
  | enter {t : State β} {d : Declaration} (summons : Summons s d.name t)
    (entry : d ∈ ctx.declarations.entries) (phase : Standing ctx s d.name .untouched) :
    Act ctx s { t with
      active := d.name :: t.active
      inProgress := if d.isBuiltin then t.inProgress else d.name :: t.inProgress }
  /-- Declare the declaration at hand. -/
  | declare {d : Declaration} {subject : Subject} {text : String} {ty : Option Ty}
    (entry : d ∈ ctx.declarations.entries) (about : subject.declaration? = some d.name)
    (due : Due ctx s .declare subject text) (publishes : ty.isSome = d.isFunction)
    (accepted : (ctx.backend.respond .declare text s.backend).1 = none) :
    Act ctx s { s.told ctx .declare subject text with
      types := (ty.map (d.name, ·)).toList ++ s.types
      inProgress := if d.isFunction then s.inProgress.erase d.name else s.inProgress
      moments := ⟨(ty.map (d.name, ·)).toList ++ s.types, s.values⟩ :: s.moments }
  /-- Define the declaration at hand, and leave it. -/
  | define {d : Declaration} {subject : Subject} {text : String} {ty : Option Ty} {v : Option Value}
    (entry : d ∈ ctx.declarations.entries) (about : subject.declaration? = some d.name)
    (due : Due ctx s .define subject text) (learns : Learns s d ty v)
    (accepted : (ctx.backend.respond .define text s.backend).1 = none) :
    Act ctx s { (s.told ctx .define subject text).leave d.name with
      defined := s.defined ++ [d.name]
      types := (ty.map (d.name, ·)).toList ++ s.types
      values := (v.map (d.name, ·)).toList ++ s.values }
  /-- Refuse the declaration at hand, and leave it. -/
  | refuse {t : State β} {x : String} (top : s.active.head? = some x) (refusal : Refusal s t) :
    Act ctx s { t.leave x with failed := t.failed ++ [x] }

/-- **A course of an analysis**: acts, one after the other. -/
abbrev Course (ctx : Context β) : State β → State β → Prop := Relation.ReflTransGen (Act ctx)

/-! ## Crashes -/

/-- What a state has in addition to another, when the analysis stopped. -/
structure Leaves (s t : State β) (said : List Exchange) (resolved : List Resolution) : Prop where
  transcript : t.transcript = s.transcript ++ said
  resolutions : t.resolutions = s.resolutions ++ resolved
  failed : t.failed = s.failed
  diagnostics : t.diagnostics = s.diagnostics

/-- **How an analysis stops**, in a state where the last act has left it. -/
inductive Crash (ctx : Context β) (s : State β) : Fatal → State β → Prop where
  /-- A request is refused. -/
  | refused {t : State β} {kind : Request} {subject : Subject} {text : String} {f : Backend.Fault}
    (due : Due ctx s kind subject text)
    (answer : (ctx.backend.respond kind text s.backend).1 = some f)
    (leaves : Leaves s t [⟨kind, text, subject, false⟩] []) : Crash ctx s (.backend f) t
  /-- A term is evaluated to something else than a type. -/
  | misanswered {t : State β} {term : Term} {text : String} {f : Backend.Fault}
    (due : Due ctx s .evaluate (.term term) text)
    (answer : ctx.backend.typeAnswered s.backend text = none)
    (leaves : Leaves s t [⟨.evaluate, text, .term term, true⟩] []) : Crash ctx s (.backend f) t
  /-- A term is folded to something else than a type. -/
  | misfolded {t : State β} {term : Term} {v : Value} {f : Backend.Fault}
    (typed : term.WellTyped (Knows s)) (type : term.ty = .type)
    (value : Fold.term s.values term = some v) (other : ∀ ty, v ≠ .type ty)
    (leaves : Leaves s t [] []) : Crash ctx s (.backend f) t
  /-- Something that is not defined would have to run. -/
  | early {t : State β} {x : String} {ty : Ty} (known : Knows s x ty) (undefined : x ∉ s.defined)
    (leaves : Leaves s t [] []) : Crash ctx s (.internal (.evaluatedTooEarly x)) t
  /-- A type that is being computed is asked for. -/
  | reentrant {t : State β} {x : String} (inProgress : x ∈ s.inProgress)
    (leaves : Leaves s t [] [⟨s.active.head?, x, .global x⟩]) :
    Crash ctx s (.internal (.reentrant x)) t

/-- What an analysis that stops leaves behind it: nothing that is said, or one
request that could be made. -/
theorem Crash.leaves {ctx : Context β} {s t : State β} {f : Fatal} (h : Crash ctx s f t) :
    ∃ said resolved, Leaves s t said resolved ∧ (said = [] ∨
      ∃ kind subject text accepted, Due ctx s kind subject text ∧
        said = [⟨kind, text, subject, accepted⟩]) := by
  cases h with
  | refused due answer leaves => exact ⟨_, _, leaves, .inr ⟨_, _, _, _, due, rfl⟩⟩
  | misanswered due answer leaves => exact ⟨_, _, leaves, .inr ⟨_, _, _, _, due, rfl⟩⟩
  | misfolded typed type value other leaves => exact ⟨_, _, leaves, .inl rfl⟩
  | early known undefined leaves => exact ⟨_, _, leaves, .inl rfl⟩
  | reentrant inProgress leaves => exact ⟨_, _, leaves, .inl rfl⟩

/-! ## What only grows -/

/-- What was referred to once stays referred to. -/
theorem Refers.mono {rs rs' : List Resolution} {d x : String} (h : Refers rs d x)
    (hle : rs <+: rs') : Refers rs' d x :=
  (hle.filterMap _).subset h

theorem refers_append_global {rs : List Resolution} {d x : String} :
    Refers (rs ++ [⟨some d, x, .global x⟩]) d x := by
  simp [Refers, Compile.references]

/-- **What is known only grows.** -/
structure Grows (s t : State β) : Prop where
  transcript : s.transcript <+: t.transcript
  diagnostics : s.diagnostics <+: t.diagnostics
  defined : s.defined <+: t.defined
  failed : s.failed <+: t.failed
  resolutions : s.resolutions <+: t.resolutions
  types : ∀ x ty, s.types.lookup x = some ty → t.types.lookup x = some ty

namespace Grows

theorem refl (s : State β) : Grows s s where
  transcript := List.prefix_rfl
  diagnostics := List.prefix_rfl
  defined := List.prefix_rfl
  failed := List.prefix_rfl
  resolutions := List.prefix_rfl
  types _ _ h := h

/-- What grows and then grows again has grown. Of lists it is that they have
more at their end, and of the types that none of them changes. -/
theorem trans {s t u : State β} (h : Grows s t) (h' : Grows t u) : Grows s u where
  transcript := h.transcript.trans h'.transcript
  diagnostics := h.diagnostics.trans h'.diagnostics
  defined := h.defined.trans h'.defined
  failed := h.failed.trans h'.failed
  resolutions := h.resolutions.trans h'.resolutions
  types x ty hx := h'.types x ty (h.types x ty hx)

end Grows

end Analysis

end Stagewise
