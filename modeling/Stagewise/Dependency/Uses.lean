import Stagewise.Declaration.Collect

/-!
# Names a declaration uses

Before anything is checked, a walk over a declaration gathers the names it
mentions and does not bind itself. A name is used as a **type** if it stands in
an ascription or expands text, for it has to be evaluated before the declaration
can be checked, and as a **value** otherwise, for then it only has to be known.

The body of a closure is a body wherever the closure is written: a name used
there is used as a value, even if the closure is part of an ascription.
-/

namespace Stagewise

/-- How a name is used. -/
inductive Role where
  /-- It has to be evaluated first. -/
  | type
  /-- It has to be known. -/
  | value
  deriving DecidableEq, Repr

/-- **A use of a name.** -/
structure Use where
  /-- The name, where it is used. -/
  name : Name
  /-- How it is used. -/
  role : Role
  deriving DecidableEq, Repr

namespace Source

/-- The use of a name, unless it is bound. -/
def free (bound : List String) (role : Role) (name : Name) : List Use :=
  if name.text ∈ bound then [] else [⟨name, role⟩]

mutual

/-- **The names an expression uses**, in order, where `bound` are bound around
it. -/
def Expr.uses (bound : List String) (role : Role) : Expr Invocation → List Use
  | .int _ _ | .float _ _ | .bool _ _ | .string _ _ | .typeLiteral _ _ => []
  | .var name => free bound role name
  | .call _ callee arguments => callee.uses bound role ++ usesAll bound role arguments
  | .tuple _ elements | .list _ elements => usesAll bound role elements
  | .unary _ _ operand => operand.uses bound role
  | .binary _ _ left right => left.uses bound role ++ right.uses bound role
  | .expand _ invocation => free bound .type invocation.expander
  | .closure _ params result body =>
    usesParams bound params ++ result.uses bound .type
      ++ body.uses (params.map (·.name.text) ++ bound)

/-- The names several expressions use. -/
def usesAll (bound : List String) (role : Role) : List (Expr Invocation) → List Use
  | [] => []
  | e :: es => e.uses bound role ++ usesAll bound role es

/-- The names that the ascriptions of parameters use. -/
def usesParams (bound : List String) : List (Param (Expr Invocation)) → List Use
  | [] => []
  | p :: ps => p.ascription.uses bound .type ++ usesParams bound ps

/-- The names a block uses. -/
def Block.uses (bound : List String) : Block Invocation → List Use
  | ⟨_, stmts⟩ => usesStmts bound stmts

/-- The names a sequence of statements uses; a variable is bound in the
statements after it. -/
def usesStmts (bound : List String) : List (Stmt Invocation) → List Use
  | [] => []
  | .bind _ name ascription body :: rest =>
    ascription.uses bound .type ++ body.uses bound ++ usesStmts (name.text :: bound) rest
  | .assign _ target _ body :: rest =>
    free bound .value target ++ body.uses bound ++ usesStmts bound rest
  | .branch _ condition yes no :: rest =>
    condition.uses bound .value ++ yes.uses bound ++ no.uses bound ++ usesStmts bound rest
  | .eval e :: rest => e.uses bound .value ++ usesStmts bound rest

end

/-- The names a function or constant uses. -/
def Item.uses : Item → List Use
  | .function f =>
    usesParams [] f.params ++ f.result.uses [] .type ++ f.body.uses (f.params.map (·.name.text))
  | .constant c => c.ascription.uses [] .type ++ c.body.uses []

end Source

/-- **The names a declaration uses.** A built-in uses none. -/
def Declaration.uses : Declaration → List Use
  | .builtin _ => []
  | .source item => item.uses

end Stagewise
