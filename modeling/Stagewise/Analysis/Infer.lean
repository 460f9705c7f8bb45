import Stagewise.Analysis.State

/-!
# Checking expressions and blocks

`infer` finds the type of an expression and builds its term, `checkBlock` does
the same for a block. Both take a **hint**, the type that is expected where the
expression stands. A hint settles what the expression leaves open, whether a
tuple of types is a type and what an empty list is a list of, and it never makes
a mismatch legal: whoever expects a type compares.

Two things are left to others here. The type of a top-level declaration is asked
for by `demand`, which may have to check that declaration first, and an
invocation is expanded by `expand`. With them as arguments, the recursion is on
the source tree alone.
-/

namespace Stagewise.Analysis

open Source (Expr Stmt Param)

variable {β μ : Type}

/-! ## Parts of the rules -/

/-- **What a name refers to, and its type.** -/
def typeOf (demand : String → Check β Ty) (name : Name) : Check β (Binding × Ty) := do
  let s ← get
  match s.scopes.get name.text with
  | none =>
    report (if s.inAscription then .undefinedType name.text name.span
      else .undefinedVariable name.text name.span)
  | some (binding, scopes) =>
    let resolution : Resolution := ⟨s.active.head?, name.text, binding⟩
    set { s with
      scopes := scopes
      resolutions := s.resolutions ++ [resolution]
      moments := s.now :: s.moments }
    match binding with
    | .lexical l => return (binding, l.ty)
    | .global d => return (binding, ← demand d)

/-- Report a type that is not the expected one. -/
def expect (site : Site) (expected found : Ty) (span : Span) : Check β Unit :=
  if found = expected then pure () else report (.mismatch site expected found span)

/-- **The type that an ascription stands for**, from the step that checks it. It
is folded if that is possible, and evaluated by the backend otherwise. -/
def ascribed (ctx : Context β) (span : Span) (step : Check β Term) : Check β Ty := do
  let t ← inAscription step
  expect .plain .type t.ty span
  let v ← match ← folded ctx t with
    | some v => pure v
    | none => evaluate ctx t
  match v with
  | .type ty => return ty
  | v => stop (.backend (.protocol ("type annotation evaluated to " ++ v.listing)))

/-- The type of an operator's result, if it applies. -/
def unaryTy : UnaryOp → Ty → Option Ty
  | .negate, t => if t.isNumeric then some t else none
  | .not, t => if t = .bool then some .bool else none

/-- The type of an operator's result, if it applies. Operands are never
converted. -/
def binaryTy (op : BinaryOp) (left right : Ty) : Option Ty :=
  if left ≠ right then none
  else match op.group with
    | .arithmetic => if left.isNumeric then some left else none
    | .ordering => if left.isNumeric then some .bool else none
    | .connective => if left = .bool then some .bool else none
    | .equality => some .bool

/-- The hints for the `n` elements of a tuple. -/
def elementHints (n : Nat) : Option Ty → List (Option Ty)
  | some (.tuple ts) => if ts.length = n then ts.map some else List.replicate n none
  | some .type => List.replicate n (some .type)
  | _ => List.replicate n none

/-- The type of a tuple. Where a type is expected, a tuple of types is a
type. -/
def tupleTy (hint : Option Ty) (elements : List Term) : Ty :=
  if hint = some .type ∧ elements.all (·.ty = .type) then .type
  else .tuple (elements.map (·.ty))

/-- The type of the elements of a list, as far as the hint tells. -/
def elementTy : Option Ty → Option Ty
  | some (.list t) => some t
  | _ => none

/-! ## Trees -/

section

variable (ctx : Context β) (demand : String → Check β Ty)
variable (expand : Span → μ → Option Ty → Check β Term)

mutual

/-- **Check an expression.** -/
def infer : Expr μ → Option Ty → Check β Term
  | .int span n, _ => return ⟨span, .int, .int n⟩
  | .float span x, _ => return ⟨span, .float, .float x⟩
  | .bool span b, _ => return ⟨span, .bool, .bool b⟩
  | .string span s, _ => return ⟨span, .string, .string s⟩
  | .typeLiteral span t, _ => return ⟨span, .type, .value (.type t)⟩
  | .var name, _ => do
    let (binding, ty) ← typeOf demand name
    return ⟨name.span, ty, .var name.text binding⟩
  | .call span callee arguments, _ => do
    let callee ← infer callee none
    match callee.ty with
    | .fn argument result =>
      if argument.parameters.length ≠ arguments.length then
        report (.arity argument.parameters.length arguments.length span)
      let arguments ← inferArguments arguments argument.parameters
      return ⟨span, result, .call callee arguments⟩
    | found => report (.notAFunction found callee.span)
  | .tuple span elements, hint => do
    let elements ← inferEach elements (elementHints elements.length hint)
    return ⟨span, tupleTy hint elements, .tuple elements⟩
  | .list span elements, hint => do
    let (ty, elements) ← inferElements elements (elementTy hint)
    return ⟨span, .list (ty.getD .nil), .list elements⟩
  | .unary span op operand, _ => do
    let operand ← infer operand none
    match unaryTy op operand.ty with
    | some ty => return ⟨span, ty, .unary op operand⟩
    | none => report (.unary op operand.ty span)
  | .binary span op left right, _ => do
    let left ← infer left none
    let right ← infer right (some left.ty)
    match binaryTy op left.ty right.ty with
    | some ty => return ⟨span, ty, .binary op left right⟩
    | none => report (.binary op left.ty right.ty span)
  | .expand span invocation, hint => expand span invocation hint
  | .closure span params result body, _ => do
    let params ← inferParams params
    let result ← ascribed ctx result.span (infer result (some .type))
    let (body, captures) ← inScope do
      introduceParams params
      let body ← checkBlock body (some result)
      return (body, ← capturedNames)
    expect .result result body.ty body.resultSpan
    return ⟨span, .functionOf (params.map (·.2)) result,
      .closure (params.map fun (name, ty) => (name.text, ty)) captures body⟩
termination_by structural e => e

/-- Check the arguments of a call against the types of the parameters. -/
def inferArguments : List (Expr μ) → List Ty → Check β (List Term)
  | e :: es, t :: ts => do
    let e ← infer e (some t)
    expect .argument t e.ty e.span
    return e :: (← inferArguments es ts)
  | _, _ => return []
termination_by structural es => es

/-- Check expressions, each with a hint of its own. -/
def inferEach : List (Expr μ) → List (Option Ty) → Check β (List Term)
  | e :: es, hint :: hints => do
    let e ← infer e hint
    return e :: (← inferEach es hints)
  | _, _ => return []
termination_by structural es => es

/-- Check the elements of a list. The first settles the type of all, if nothing
else did. -/
def inferElements : List (Expr μ) → Option Ty → Check β (Option Ty × List Term)
  | [], ty => return (ty, [])
  | e :: es, none => do
    let e ← infer e none
    let (ty, es) ← inferElements es (some e.ty)
    return (ty, e :: es)
  | e :: es, some t => do
    let e ← infer e (some t)
    expect .plain t e.ty e.span
    let (ty, es) ← inferElements es (some t)
    return (ty, e :: es)
termination_by structural es => es

/-- The names and the types of parameters. -/
def inferParams : List (Param (Expr μ)) → Check β (List (Name × Ty))
  | [] => return []
  | p :: ps => do
    let ty ← ascribed ctx p.ascription.span (infer p.ascription (some .type))
    return (p.name, ty) :: (← inferParams ps)
termination_by structural ps => ps

/-- **Check a block**, in a scope of its own. -/
def checkBlock : Source.Block μ → Option Ty → Check β Term.Block
  | ⟨span, stmts⟩, hint => do
    let stmts ← inScope (checkStmts stmts hint)
    return ⟨span, Term.resultTy stmts, stmts⟩
termination_by structural b => b

/-- Check a sequence of statements. The hint is for the last. -/
def checkStmts : List (Stmt μ) → Option Ty → Check β (List Term.Stmt)
  | [], _ => return []
  | s :: rest, hint => do
    let s ← checkStmt s (if rest.isEmpty then hint else none)
    match s with
    | .bind _ name ty _ => introduce .assignable name ty
    | _ => pure ()
    return s :: (← checkStmts rest hint)
termination_by structural ss => ss

/-- Check a statement. -/
def checkStmt : Stmt μ → Option Ty → Check β Term.Stmt
  | .bind span name ascription body, _ => do
    let ty ← ascribed ctx ascription.span (infer ascription (some .type))
    let body ← checkBlock body (some ty)
    expect .variableBody ty body.ty body.resultSpan
    return .bind span name ty body
  | .assign span target op body, _ => do
    let (binding, ty) ← typeOf demand target
    match binding with
    | .lexical ⟨_, .assignable, _⟩ => pure ()
    | _ => report (.notAssignable target.text target.span)
    let body ← checkBlock body (some ty)
    match op.binary? with
    | some binary => if !ty.isNumeric then report (.binary binary ty body.ty span)
    | none => pure ()
    expect .assignment ty body.ty body.resultSpan
    return .assign span target.text op body
  | .branch span condition yes no, hint => do
    let condition ← infer condition (some .bool)
    if condition.ty ≠ .bool then report (.condition condition.ty condition.span)
    let yes ← checkBlock yes hint
    let no ← checkBlock no hint
    if yes.ty ≠ no.ty then report (.arms yes.ty yes.resultSpan no.ty no.resultSpan)
    return .branch span yes.ty condition yes no
  | .eval e, hint => return .eval (← infer e hint)
termination_by structural s => s

end

end

end Stagewise.Analysis
