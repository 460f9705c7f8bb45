import Stagewise.Location
import Stagewise.Operator
import Stagewise.Ty.Basic

/-!
# Source trees

A module is a list of functions and constants, and their bodies are trees of
expressions, blocks and statements. Ascriptions are expressions like any other:
what a parameter's type is has to be computed.

The trees are indexed by the type `μ` of **invocations**, the places where text
is left to be expanded. A module as written has `μ = Invocation`; what an
expansion produces has nothing left to expand, and is a tree over `Empty`. That
an expansion never leads to another is thus visible in its type.
-/

namespace Stagewise.Source

/-- **Text to be expanded**: the function that expands it, and the lines it is
given. -/
structure Invocation where
  /-- The function that expands the text. -/
  expander : Name
  /-- The text, line by line. -/
  lines : List String

/-- The text of an invocation as one string. -/
def Invocation.text (m : Invocation) : String := String.intercalate "\n" m.lines

/-- A parameter of a function or closure. -/
structure Param (ε : Type) where
  /-- The name it binds. -/
  name : Name
  /-- The expression for its type. -/
  ascription : ε

mutual

/-- **An expression.** -/
inductive Expr (μ : Type) where
  | int (span : Span) (n : Int64)
  | float (span : Span) (x : Float)
  | bool (span : Span) (b : Bool)
  | string (span : Span) (s : String)
  /-- A type that is known already. -/
  | typeLiteral (span : Span) (t : Ty)
  | var (name : Name)
  | call (span : Span) (callee : Expr μ) (arguments : List (Expr μ))
  | tuple (span : Span) (elements : List (Expr μ))
  | list (span : Span) (elements : List (Expr μ))
  | unary (span : Span) (op : UnaryOp) (operand : Expr μ)
  | binary (span : Span) (op : BinaryOp) (left right : Expr μ)
  | expand (span : Span) (invocation : μ)
  | closure (span : Span) (params : List (Param (Expr μ))) (result : Expr μ) (body : Block μ)

/-- **A sequence of statements.** Its value is that of the last. -/
structure Block (μ : Type) where
  /-- Where the block is. -/
  span : Span
  /-- The statements. -/
  stmts : List (Stmt μ)

/-- **A statement.** -/
inductive Stmt (μ : Type) where
  /-- Bind a variable, which the statements after this one see. -/
  | bind (span : Span) (name : Name) (ascription : Expr μ) (body : Block μ)
  | assign (span : Span) (target : Name) (op : AssignOp) (body : Block μ)
  | branch (span : Span) (condition : Expr μ) (yes no : Block μ)
  | eval (e : Expr μ)

end

variable {μ : Type}

/-- Where an expression is. -/
def Expr.span : Expr μ → Span
  | .int s _ | .float s _ | .bool s _ | .string s _ | .typeLiteral s _ | .call s _ _ | .tuple s _
  | .list s _ | .unary s _ _ | .binary s _ _ _ | .expand s _ | .closure s _ _ _ => s
  | .var name => name.span

/-- Where a statement is. -/
def Stmt.span : Stmt μ → Span
  | .bind s _ _ _ | .assign s _ _ _ | .branch s _ _ _ => s
  | .eval e => e.span

/-- The block of a single expression, in the same place. -/
def Block.ofExpr (e : Expr μ) : Block μ := ⟨e.span, [.eval e]⟩

/-- **A function of a module.** -/
structure Function where
  /-- Where the function is. -/
  span : Span
  /-- Its name. -/
  name : Name
  /-- Its parameters. -/
  params : List (Param (Expr Invocation))
  /-- The expression for the type of its result. -/
  result : Expr Invocation
  /-- Its body. -/
  body : Block Invocation

/-- **A constant of a module.** -/
structure Constant where
  /-- Where the constant is. -/
  span : Span
  /-- Its name. -/
  name : Name
  /-- The expression for its type. -/
  ascription : Expr Invocation
  /-- Its value. -/
  body : Block Invocation

/-- A function or a constant. -/
inductive Item where
  | function (f : Function)
  | constant (c : Constant)

namespace Item

/-- The name of an item. -/
def name : Item → Name
  | .function f => f.name
  | .constant c => c.name

/-- Where an item is. -/
def span : Item → Span
  | .function f => f.span
  | .constant c => c.span

/-- The body of an item. -/
def body : Item → Block Invocation
  | .function f => f.body
  | .constant c => c.body

/-- Whether an item is a function. -/
def isFunction : Item → Bool
  | .function _ => true
  | .constant _ => false

end Item

end Stagewise.Source

namespace Stagewise

/-- **A module**: its functions and constants, in the order they are written. -/
abbrev Source.Module := List Source.Item

end Stagewise
