import Stagewise.Backend.Basic
import Stagewise.Declaration.Collect
import Stagewise.Target.Lower
import Stagewise.Target.Printer
import Stagewise.Term.Fold
import Stagewise.Value.Listing
import Stagewise.Value.Tagged

/-!
# The state of an analysis

Declarations are checked on demand, each at most once, and everything learned on
the way is kept in one `State`: the types and values of declarations, which of
them are defined, refused or under way, what was found wrong, and the
`transcript` of what was said to the backend. Part of the state belongs to the
place being checked, the chain of scopes and whether an ascription is being
read; it is put back whenever a place is left, in whatever way.

Some of it is a record that the analysis itself never reads: the names that were
looked up, in which declaration something was found wrong, what was folded, what
text was expanded to, and the `moments`, what was known of declarations each
time something depended on it.

`Check` is the monad of steps that change the state and may **halt**. A step
halts with `Halt.diagnostics` when the declaration at hand is refused, the
reason having been reported, and with `Halt.fatal` when the whole analysis has
to stop. The state survives a halt.
-/

namespace Stagewise

/-- **How to compile.** -/
structure Options where
  /-- The name of the function where the program starts. -/
  entryPoint : String := "main"
  /-- Whether values that do not depend on the backend are computed here. -/
  fold : Bool := true
  /-- Whether a scope keeps one capture per name. -/
  dedupCaptures : Bool := true
  /-- The hash by which requests for expansions are put into buckets. -/
  hash : String → UInt64 := hash

namespace Analysis

/-! ## The transcript -/

/-- **What a request was made from.** -/
inductive Subject where
  /-- A text that somebody else wrote, be it for a declaration. -/
  | given (declaration : Option String)
  /-- A built-in. -/
  | builtin (b : Builtin)
  /-- What is known of a declaration from outside. -/
  | signature (declaration : String)
  /-- The body of a declaration. -/
  | body (declaration : String) (b : Term.Block)
  /-- The value of a constant. -/
  | literal (declaration : String) (v : Value)
  /-- An expression to be evaluated. -/
  | term (t : Term)
  /-- An expansion by what an expander's name refers to. -/
  | expansion (expander : Binding)

/-- **One request to the backend.** -/
structure Exchange where
  /-- Its kind. -/
  kind : Request
  /-- Its text. -/
  text : String
  /-- What it was made from. -/
  subject : Subject
  /-- Whether the backend accepted it. -/
  accepted : Bool

/-- The texts that were to be evaluated, each with how many pieces of program
were sent before it. -/
def evaluations (transcript : List Exchange) : List (Nat × String) :=
  go 0 transcript
where
  /-- The same for a transcript that goes on after `sent` pieces of program. -/
  go (sent : Nat) : List Exchange → List (Nat × String)
    | [] => []
    | e :: rest => if e.kind = .evaluate then (sent, e.text) :: go sent rest else go (sent + 1) rest

/-- A name that was looked up, and found. -/
structure Resolution where
  /-- The declaration under analysis. -/
  inside : Option String
  /-- The name. -/
  name : String
  /-- What it referred to. -/
  binding : Binding

/-- Something that was found wrong. -/
structure Report where
  /-- The declaration under analysis. -/
  inside : Option String
  /-- What is wrong. -/
  diagnostic : Diagnostic

/-- **What is known of declarations** at some time. -/
structure Moment where
  /-- Their types, the latest first. -/
  types : List (String × Ty)
  /-- Their values, the latest first. -/
  values : Values

/-! ## The cache of expansions -/

/-- The requests with a hash, and the answers to them, in order. -/
abbrev Bucket := List (String × Data)

/-- **What expanders returned**, by the text of the request. A request is looked
for in the bucket of its hash, and by its full text there. -/
structure Cache where
  /-- The hash of a request. -/
  hash : String → UInt64
  /-- The buckets, by hash. -/
  buckets : List (UInt64 × Bucket) := []

namespace Cache

/-- The bucket that a request belongs in. -/
def bucket (c : Cache) (text : String) : Bucket := (c.buckets.lookup (c.hash text)).getD []

/-- The answer to a request that was made before. -/
def get? (c : Cache) (text : String) : Option Data := (c.bucket text).lookup text

/-- Add a request and its answer to the bucket of a hash, which is opened if
there is none. -/
def put (key : UInt64) (entry : String × Data) : List (UInt64 × Bucket) → List (UInt64 × Bucket)
  | [] => [(key, [entry])]
  | (k, es) :: rest => if k = key then (k, es ++ [entry]) :: rest else (k, es) :: put key entry rest

/-- Keep the answer to a request. -/
def insert (c : Cache) (text : String) (d : Data) : Cache :=
  { c with buckets := put (c.hash text) (text, d) c.buckets }

end Cache

/-! ## State and steps -/

/-- **All that an analysis knows**, with a backend in state `β`. -/
structure State (β : Type) where
  /-- The state of the backend. -/
  backend : β
  /-- The scopes around the place being checked. -/
  scopes : Scopes
  /-- Whether that place is in an ascription. -/
  inAscription : Bool := false
  /-- The requests to the backend, in order. -/
  transcript : List Exchange := []
  /-- What was found wrong, in order. -/
  reports : List Report := []
  /-- The declarations that were defined, in order. -/
  defined : List String := []
  /-- The declarations that were refused. -/
  failed : List String := []
  /-- The declarations whose type is being computed. -/
  inProgress : List String := []
  /-- The declarations under analysis, innermost first. -/
  active : List String := []
  /-- The types of declarations, the latest first. -/
  types : List (String × Ty) := []
  /-- The values of declarations, the latest first. -/
  values : Values := []
  /-- What expanders returned. -/
  cache : Cache
  /-- The names that were looked up, in order. -/
  resolutions : List Resolution := []
  /-- What was known each time a name was looked up, something was folded or a
  request was made, the latest first. -/
  moments : List Moment := []
  /-- The ascriptions that were folded, with what they stand for, in order. -/
  foldings : List (Term × Value) := []
  /-- The requests for expansions, each time text was expanded, with what it was
  expanded by, in order. -/
  expansions : List (String × Data) := []

/-- Why a step halts. -/
inductive Halt where
  /-- The declaration at hand is refused. -/
  | diagnostics
  /-- The analysis has to stop. -/
  | fatal (f : Fatal)
  deriving DecidableEq, Repr

/-- **Steps of an analysis.** -/
abbrev Check (β : Type) := EStateM Halt (State β)

/-- What an analysis works with. -/
structure Context (β : Type) where
  /-- The declarations. -/
  declarations : Declarations
  /-- How to compile. -/
  options : Options
  /-- The backend. -/
  backend : Backend β

/-- The state before anything is known: one scope, and nothing in it. -/
def Context.start {β : Type} (ctx : Context β) (b : β) : State β where
  backend := b
  scopes := { topLevel := ctx.declarations.names, dedup := ctx.options.dedupCaptures }
  cache := { hash := ctx.options.hash }

variable {β α : Type}

/-- What was found wrong, in order. -/
def State.diagnostics (s : State β) : List Diagnostic := s.reports.map (·.diagnostic)

/-- What is known now. -/
def State.now (s : State β) : Moment := ⟨s.types, s.values⟩

/-- Report something wrong, and refuse the declaration at hand. -/
def report (d : Diagnostic) : Check β α := do
  modify fun s => { s with reports := s.reports ++ [⟨s.active.head?, d⟩] }
  throw .diagnostics

/-- Stop the analysis. -/
def stop (f : Fatal) : Check β α := throw (.fatal f)

/-! ## Places -/

/-- **Do a step in an inner scope**, and leave the scope after it. -/
def inScope (step : Check β α) : Check β α := fun s =>
  match step { s with scopes := s.scopes.push } with
  | .ok a s => .ok a { s with scopes := s.scopes.pop }
  | .error h s => .error h { s with scopes := s.scopes.pop }

/-- **Do a step in an ascription.** -/
def inAscription (step : Check β α) : Check β α := fun s =>
  match step { s with inAscription := true } with
  | .ok a t => .ok a { t with inAscription := s.inAscription }
  | .error h t => .error h { t with inAscription := s.inAscription }

/-- **Do a step at the top level**, where only top-level names are visible. -/
def atTopLevel (step : Check β α) : Check β α := fun s =>
  match step { s with scopes := s.scopes.isolated, inAscription := false } with
  | .ok a t => .ok a { t with scopes := s.scopes, inAscription := s.inAscription }
  | .error h t => .error h { t with scopes := s.scopes, inAscription := s.inAscription }

/-- Introduce a local in the innermost scope. -/
def introduce (kind : Local.Kind) (name : Name) (ty : Ty) : Check β Unit := do
  match (← get).scopes.add name (.lexical ⟨name, kind, ty⟩) with
  | .ok scopes => modify fun s => { s with scopes }
  | .error d => report d

/-- Introduce parameters. -/
def introduceParams (params : List (Name × Ty)) : Check β Unit :=
  params.forM fun (name, ty) => introduce .parameter name ty

/-- The outer locals that were used in the innermost scope. -/
def capturedNames : Check β (List String) := do
  return (← get).scopes.current.lexicalCaptures.map (·.name)

/-! ## Requests -/

/-- **Make a request**, and write it down with its outcome. A fault stops the
analysis. -/
def send (kind : Request) (subject : Subject) (text : String)
    (run : β → Except Backend.Fault α × β) : Check β α := fun s =>
  match run s.backend with
  | (.ok a, b) =>
    .ok a { s with
      backend := b
      transcript := s.transcript ++ [⟨kind, text, subject, true⟩]
      moments := s.now :: s.moments }
  | (.error f, b) =>
    .error (.fatal (.backend f)) { s with
      backend := b
      transcript := s.transcript ++ [⟨kind, text, subject, false⟩]
      moments := s.now :: s.moments }

/-- Declare something. -/
def declare (ctx : Context β) (subject : Subject) (text : String) : Check β Unit :=
  send .declare subject text (ctx.backend.declare text)

/-- **Define a declaration**, which is done once. It counts as defined from the
moment it is sent. -/
def define (ctx : Context β) (name : String) (subject : Subject) (text : String) :
    Check β Unit := do
  if name ∈ (← get).defined then stop (.internal (.alreadyDefined name))
  modify fun s => { s with defined := s.defined ++ [name] }
  send .define subject text (ctx.backend.define text)

/-- **Have a term evaluated.** All declarations it refers to must be defined. -/
def evaluate (ctx : Context β) (t : Term) : Check β Value := do
  let defined := (← get).defined
  match t.globals.find? (· ∉ defined) with
  | some name => stop (.internal (.evaluatedTooEarly name))
  | none =>
    let text := t.lower.text
    let d ← send .evaluate (.term t) text (ctx.backend.evaluate text)
    match Value.decode [] d with
    | .ok v => return v
    | .error e => stop (.backend (.decode e))

/-- The values that are known, for something to be folded. -/
def knownValues : Check β Values := do
  modify fun s => { s with moments := s.now :: s.moments }
  return (← get).values

/-- The value of an ascription, if it can be folded and may be. It is written
down. -/
def folded (ctx : Context β) (t : Term) : Check β (Option Value) := do
  let known ← knownValues
  let v := if ctx.options.fold then Fold.term known t else none
  modify fun s => { s with foldings := s.foldings ++ (v.map (t, ·)).toList }
  return v

/-- The value of a block, if it can be folded and may be. -/
def foldedBlock (ctx : Context β) (b : Term.Block) : Check β (Option Value) := do
  let known ← knownValues
  return if ctx.options.fold then Fold.block known b else none

end Analysis

end Stagewise
