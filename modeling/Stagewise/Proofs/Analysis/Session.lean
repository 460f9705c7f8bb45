import Stagewise.Proofs.Analysis.Moves

/-!
# Sessions

An analysis can be used piece by piece. Whoever does so may have a declaration
settled, ask what a name refers to or what an expression is, have a term
evaluated, or say something to the backend in their own words. They may do this
in any place and in any order, and go on after something went wrong, since the
state survives a halt. A **session** is a sequence of such calls.

What a compilation does is a session too, with the declarations settled in the
order of the schedule. But that order is not all that can happen. A statement
about every session is one about whoever uses the analysis, in good order or
not. It is proved for one call and then by induction on the calls
(`session_induction`), and for one call it is proved of a relation that carries
the checking of trees (`Carries.perform`).
-/

namespace Stagewise.Analysis

open Source (Expr Invocation)

variable {β : Type} {ctx : Context β} {R : State β → State β → Prop} {s : State β}

/-- **What can be asked of an analysis.** -/
inductive Operation where
  /-- Settle a declaration. -/
  | analyze (name : String)
  /-- Find what a name refers to, and its type. -/
  | typeOf (name : Name)
  /-- Check an expression. -/
  | infer (e : Expr Invocation) (hint : Option Ty)
  /-- Have a term evaluated. -/
  | evaluate (t : Term)
  /-- Declare something. -/
  | declare (text : String)
  /-- Define a declaration. -/
  | define (name text : String)

/-- **Do what is asked.** The answer is not kept. -/
def perform (ctx : Context β) : Operation → Check β Unit
  | .analyze name =>
    match ctx.declarations.find? name with
    | some d => analyze ctx d
    | none => pure ()
  | .typeOf name => do
    let _ ← typeOf (demand ctx) name
    pure ()
  | .infer e hint => do
    let _ ← inferSource ctx e hint
    pure ()
  | .evaluate t => do
    let _ ← evaluate ctx t
    pure ()
  | .declare text => declare ctx (.given none) text
  | .define name text => define ctx name (.given name) text

/-- **A call**: something is asked in some place. -/
structure Call where
  /-- The scopes around the place. -/
  scopes : Scopes
  /-- What is asked. -/
  operation : Operation

/-- The state after a call, whatever comes of it. -/
def Call.after (ctx : Context β) (s : State β) (c : Call) : State β :=
  match perform ctx c.operation { s with scopes := c.scopes } with
  | .ok _ t | .error _ t => t

/-- **The state after a session.** -/
def session (ctx : Context β) (s : State β) (calls : List Call) : State β :=
  calls.foldl (Call.after ctx) s

/-- A call leaves the state in which its operation ended. How that was is not
looked at. -/
theorem EndsIn.after {P : State β → Prop} {c : Call}
    (h : EndsIn P (perform ctx c.operation { s with scopes := c.scopes })) :
    P (c.after ctx s) := by
  unfold Call.after
  cases hr : perform ctx c.operation { s with scopes := c.scopes } with
  | ok a t =>
    rw [hr] at h
    exact h
  | error e t =>
    rw [hr] at h
    exact h

/-- **What every call keeps holds after a session.** -/
theorem session_induction {P : State β → Prop} {start : State β} (calls : List Call)
    (hstart : P start) (hcall : ∀ s c, P s → P (Call.after ctx s c)) :
    P (session ctx start calls) := by
  unfold session
  induction calls generalizing start with
  | nil => exact hstart
  | cons c calls ih => exact ih (hcall start c hstart)

/-- **Every operation moves by a relation** that carries the checking of trees,
if the settling of declarations and what is said to the backend do. -/
theorem Carries.perform (h : Carries ctx R) (hdemand : ∀ x, Moves R (demand ctx x))
    (hdeclare : ∀ text, Moves R (declare ctx (.given none) text))
    (hdefine : ∀ name text, Moves R (define ctx name (.given (some name)) text)) (op : Operation)
    (s : State β) (hanalyze : ∀ d ∈ ctx.declarations.entries, op = .analyze d.name →
      EndsIn (R s) (analyze ctx d s)) : EndsIn (R s) (perform ctx op s) := by
  cases op with
  | analyze name =>
    rw [Analysis.perform]
    cases hfind : ctx.declarations.find? name with
    | none => exact h.refl s
    | some d =>
      obtain ⟨hd, rfl⟩ := Declarations.find?_eq_some_iff.mp hfind
      exact hanalyze d hd rfl
  | typeOf name => exact h.bind (h.typeOf hdemand name) (fun _ => h.pure ()) s
  | infer e hint => exact h.bind (h.infer hdemand e hint) (fun _ => h.pure ()) s
  | evaluate t => exact h.bind (h.evaluateTerm t) (fun _ => h.pure ()) s
  | declare text => exact hdeclare text s
  | define name text => exact hdefine name text s

end Stagewise.Analysis
