import Stagewise.Analysis.Declarations
import Stagewise.Backend.Buffer
import Stagewise.Dependency.Graph

/-!
# Compiling a module

A module is compiled in four steps. Its declarations are collected beside the
built-ins, their dependencies are put into a schedule, the declarations are
settled in the order of the schedule, and at the end every one of them must have
been either defined or refused.

Settling a declaration may settle others it depends on, so the order of
definitions can differ from the schedule. Whatever is found wrong with a
declaration is kept while the others are settled, and the compilation succeeds
when nothing was found wrong. `compileWith` compiles for any backend, and
`compile` for one that keeps the program in memory and evaluates nothing.
-/

namespace Stagewise

/-- **A compiled module.** -/
structure Compiled where
  /-- All that was sent to the backend. -/
  program : String
  /-- The declarations, in the order they were defined. -/
  order : List String
  /-- The declarations of each stage, as scheduled. -/
  stages : List (List String)
  /-- The types of declarations. -/
  types : List (String × Ty)
  /-- The values of declarations that are known. -/
  values : List (String × Value)
  /-- Which declaration referred to which, each time one did. -/
  references : List (String × String)

/-- The type of a declaration. -/
def Compiled.typeOf? (c : Compiled) (name : String) : Option Ty := c.types.lookup name

/-- The value of a declaration, if it is known. -/
def Compiled.valueOf? (c : Compiled) (name : String) : Option Value := c.values.lookup name

/-- **How a compilation ended**, with a backend in state `β`. -/
structure Outcome (β : Type) where
  /-- The compiled module, or why there is none. -/
  result : Except Failure Compiled
  /-- What was said to the backend. -/
  transcript : List Analysis.Exchange := []
  /-- The state the backend is in. -/
  backend : β

namespace Compile

open Analysis

variable {β : Type}

/-- The stage graph of declarations. -/
def stageGraph (ds : Declarations) : Stage.Graph := (Dependencies.collect ds).stageGraph ds

/-- The outermost scope, in which the built-ins are introduced. -/
def rootScopes (scopes : Scopes) : Except Diagnostic Scopes :=
  Builtin.all.foldlM (fun s b => s.add (.unplaced b.name) (.global b.name)) scopes

/-- Settle the declarations of some nodes in order. -/
def settleAll (ctx : Context β) (g : Stage.Graph) (order : List Nat) : Check β Unit :=
  order.forM fun i =>
    match g.node? i >>= (·.declaration) >>= ctx.declarations.find? with
    | some d => analyze ctx d
    | none => pure ()

/-- Which declaration referred to which. -/
def references (resolutions : List Resolution) : List (String × String) :=
  resolutions.filterMap fun r =>
    match r.inside, r.binding with
    | some d, .global _ => some (d, r.name)
    | _, _ => none

/-- The entries of a table that belong to declarations, in the order of
those. -/
def tabulate {α : Type} (ds : Declarations) (table : List (String × α)) : List (String × α) :=
  ds.names.filterMap fun name => (table.lookup name).map (name, ·)

/-- **What has become of the module** once all declarations are settled. -/
def conclude (ctx : Context β) (g : Stage.Graph) (schedule : Stage.Schedule) (s : State β) :
    Except Failure Compiled :=
  let settled := s.defined.length + s.failed.length
  if settled ≠ ctx.declarations.count then
    .error (.fatal (.internal (.unsettled settled ctx.declarations.count)))
  else if !s.diagnostics.isEmpty then .error (.diagnostics s.diagnostics)
  else .ok
    { program := ctx.backend.program s.backend
      order := s.defined
      stages := schedule.stages.map g.labels
      types := tabulate ctx.declarations s.types
      values := tabulate ctx.declarations s.values
      references := references s.resolutions }

/-- Compile scheduled declarations. -/
def scheduled (ctx : Context β) (schedule : Stage.Schedule) (b : β) : Outcome β :=
  let g := stageGraph ctx.declarations
  let start := ctx.start b
  match rootScopes start.scopes with
  | .error d => { result := .error (.fatal (.internal (.other d.message))), backend := b }
  | .ok scopes =>
    match settleAll ctx g schedule.order { start with scopes } with
    | .ok () s =>
      { result := conclude ctx g schedule s, transcript := s.transcript, backend := s.backend }
    | .error h s =>
      let failure : Failure := match h with
        | .fatal f => .fatal f
        | .diagnostics => .diagnostics s.diagnostics
      { result := .error failure, transcript := s.transcript, backend := s.backend }

end Compile

/-- **Compile a module** for a backend in state `b`. -/
def compileWith {β : Type} (m : Source.Module) (backend : Backend β) (b : β) (options : Options) :
    Outcome β :=
  match Declarations.collect m with
  | .error ds => { result := .error (.diagnostics ds), backend := b }
  | .ok declarations =>
    match (Compile.stageGraph declarations).schedule with
    | .error c => { result := .error (.fatal (.cycle c)), backend := b }
    | .ok schedule => Compile.scheduled ⟨declarations, options, backend⟩ schedule b

/-- **Compile a module in memory**, where nothing can be evaluated and so
everything has to fold. -/
def compile (m : Source.Module) (options : Options) : Except Failure Compiled :=
  (compileWith m (Buffer.backend none) { evaluator := () } options).result

end Stagewise
