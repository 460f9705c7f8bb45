import Stagewise.Analysis.Infer
import Stagewise.Expansion.Decode

/-!
# Checking declarations on demand

A declaration is checked when something first asks for its type. `examine`
checks one, `settle` does so unless it was done before, and makes the outcome
final: the declaration ends up defined or refused, and what was marked while it
was under way is cleared.

A function publishes its type before its body is checked, so that its body may
refer to it, directly or through other functions. A constant publishes its type
when it is defined. A declaration that is referred to before it has published
its type, while that is being computed, is re-entered, which stops the analysis.
Declarations under analysis are therefore distinct, and there are never more of
them than there are declarations: `analyze` needs no deeper recursion.
-/

namespace Stagewise.Analysis

open Source (Invocation)

variable {β : Type}

/-! ## Expansions -/

/-- The text of the request that expands text where a type is expected. -/
def expansionText (m : Invocation) (expected : Ty) : String :=
  (Target.Expr.call (.name m.expander.text) [.string m.text, .descriptor expected]).text

/-- What an expander returns for a request. The backend is asked once for each
text. What is returned is written down. -/
def expansion (ctx : Context β) (binding : Binding) (text : String) : Check β Data := do
  match (← get).cache.get? text with
  | some d =>
    modify fun s => { s with expansions := s.expansions ++ [(text, d)] }
    return d
  | none =>
    let d ← send .evaluate (.expansion binding) text (ctx.backend.evaluate text)
    modify fun s => { s with
      cache := s.cache.insert text d
      expansions := s.expansions ++ [(text, d)] }
    return d

/-- The steps that check a tree with nothing to expand. -/
def inferExpanded (ctx : Context β) (demand : String → Check β Ty) (e : Source.Expr Empty)
    (hint : Option Ty) : Check β Term :=
  infer ctx demand (fun _ m _ => nomatch m) e hint

/-- **Expand text**: have the expander run, and check what it returns in the
place of the text. -/
def expand (ctx : Context β) (demand : String → Check β Ty) (span : Span) (m : Invocation)
    (hint : Option Ty) : Check β Term := do
  let (binding, ty) ← typeOf demand m.expander
  expect .plain .expander ty m.expander.span
  match binding with
  | .global d =>
    if d ∉ (← get).defined then stop (.internal (.evaluatedTooEarly m.expander.text))
  | .lexical _ => pure ()
  let expected := hint.getD .nil
  let d ← expansion ctx binding (expansionText m expected)
  match Expansion.decode [expected] span d with
  | .error cause => report (.expansionInvalid m.expander.text cause span)
  | .ok (message, e) =>
    if message ≠ "" then report (.expansionFailed m.expander.text message span)
    inferExpanded ctx demand e hint

/-! ## One declaration -/

/-- Publish the type of a declaration. -/
def publish (name : String) (ty : Ty) : Check β Unit :=
  modify fun s => { s with types := (name, ty) :: s.types }

/-- Remember the value of a declaration. -/
def remember (name : String) (v : Value) : Check β Unit :=
  modify fun s => { s with values := (name, v) :: s.values }

/-- Mark that the type of a declaration is being computed. -/
def mark (name : String) : Check β Unit :=
  modify fun s => { s with inProgress := s.inProgress.insert name }

/-- Clear that mark. -/
def unmark (name : String) : Check β Unit :=
  modify fun s => { s with inProgress := s.inProgress.erase name }

/-- Declare and define a built-in. -/
def examineBuiltin (ctx : Context β) (b : Builtin) : Check β Unit := do
  declare ctx (.builtin b) (Target.Item.declareBuiltin b).text
  define ctx b.name (.builtin b) (Target.Item.defineBuiltin b).text
  publish b.name b.ty
  match b.alias? with
  | some t => remember b.name (.type t)
  | none => pure ()

/-- **Check a function.** -/
def examineFunction (ctx : Context β) (demand : String → Check β Ty) (f : Source.Function) :
    Check β Unit := do
  let name := f.name.text
  mark name
  let params ← inferParams ctx demand (expand ctx demand) f.params
  let result ← ascribed ctx f.result.span
    (infer ctx demand (expand ctx demand) f.result (some .type))
  let ty := Ty.functionOf (params.map (·.2)) result
  publish name ty
  unmark name
  let signature : Target.Signature :=
    { name, params := params.map fun (x, t) => (x.text, t), result
      isEntry := name = ctx.options.entryPoint }
  declare ctx (.signature name) (Target.Item.declareFunction signature).text
  let body ← inScope do
    introduceParams params
    checkBlock ctx demand (expand ctx demand) f.body (some result)
  expect .result result body.ty body.resultSpan
  if signature.isEntry ∧ ty ≠ .entryPoint then report (.entryPoint ty f.name.span)
  define ctx name (.body name body) (Target.Item.function signature body).text

/-- **Check a constant.** -/
def examineConstant (ctx : Context β) (demand : String → Check β Ty) (c : Source.Constant) :
    Check β Unit := do
  let name := c.name.text
  mark name
  let ty ← ascribed ctx c.ascription.span
    (infer ctx demand (expand ctx demand) c.ascription (some .type))
  declare ctx (.signature name) (Target.Item.declareConstant name ty).text
  let body ← inScope (checkBlock ctx demand (expand ctx demand) c.body (some ty))
  expect .constantBody ty body.ty body.resultSpan
  match ← foldedBlock ctx body with
  | some v =>
    define ctx name (.literal name v) (Target.Item.known name ty v).text
    remember name v
  | none => define ctx name (.body name body) (Target.Item.computed name ty body).text
  publish name ty

/-- **Check a declaration**, in no particular place. -/
def examine (ctx : Context β) (demand : String → Check β Ty) : Declaration → Check β Unit
  | .builtin b => examineBuiltin ctx b
  | .source (.function f) => examineFunction ctx demand f
  | .source (.constant c) => examineConstant ctx demand c

/-- **Settle a declaration** by the step that checks it, unless it is settled
already. That it is refused is an outcome, and no halt. -/
def settle (name : String) (step : Check β Unit) : Check β Unit := fun s =>
  if name ∈ s.defined ∨ name ∈ s.failed then .ok () s
  else
    let leave (t : State β) : State β :=
      { t with active := t.active.tail, inProgress := t.inProgress.erase name }
    match atTopLevel step { s with active := name :: s.active } with
    | .ok () t => .ok () (leave t)
    | .error .diagnostics t => .ok () { leave t with failed := t.failed ++ [name] }
    | .error (.fatal f) t => .error (.fatal f) (leave t)

/-! ## On demand -/

/-- **The type of a declaration**, which `analyze` settles first if it has
to. -/
def demandWith (ctx : Context β) (analyze : Declaration → Check β Unit) (name : String) :
    Check β Ty := do
  let s ← get
  match s.types.lookup name with
  | some ty => return ty
  | none =>
    if name ∈ s.failed then throw .diagnostics
    if name ∈ s.inProgress then stop (.internal (.reentrant name))
    match ctx.declarations.find? name with
    | some d => analyze d
    | none => pure ()
    let s ← get
    match s.types.lookup name with
    | some ty => return ty
    | none => if name ∈ s.failed then throw .diagnostics else stop (.internal (.missingType name))

/-- Settle a declaration, with room for `depth` declarations under analysis. -/
def analyzeWithin (ctx : Context β) : Nat → Declaration → Check β Unit
  | 0, d => stop (.internal (.reentrant d.name))
  | depth + 1, d => settle d.name (examine ctx (demandWith ctx (analyzeWithin ctx depth)) d)

/-- **Settle a declaration**: check it, and what it depends on. -/
def analyze (ctx : Context β) (d : Declaration) : Check β Unit :=
  analyzeWithin ctx ctx.declarations.count d

/-- The type of a declaration, which is settled if it has to be. -/
def demand (ctx : Context β) (name : String) : Check β Ty := demandWith ctx (analyze ctx) name

/-- Check an expression of the source, settling what it depends on. -/
def inferSource (ctx : Context β) (e : Source.Expr Invocation) (hint : Option Ty) : Check β Term :=
  infer ctx (demand ctx) (expand ctx (demand ctx)) e hint

end Stagewise.Analysis
