import Stagewise.Declaration.Builtin
import Stagewise.Operator

/-!
# Programs of the target language

Lowering produces trees of the target language, and only `Target.Printer` makes
text of them. The trees have just the forms that are emitted: literals, calls,
literals of tuples and lists, operators, lambdas, and the statements that can
stand in a body.

A top-level declaration is emitted in two **items**, one that declares it and
one that defines it. `Signature.symbol` is the name the target knows a function
by: its own, except for the entry point.
-/

namespace Stagewise.Target

mutual

/-- **An expression of the target.** -/
inductive Expr where
  | int (n : Int64)
  | float (x : Float)
  | bool (b : Bool)
  | string (s : String)
  | name (x : String)
  | call (callee : Expr) (arguments : List Expr)
  /-- A type as a value. -/
  | descriptor (t : Ty)
  /-- The type that is the tuple of some types, as a value. -/
  | tupleType (elements : List Expr)
  | tuple (elements : List Expr)
  /-- Elements in braces, after a type. -/
  | braced (ty : Ty) (elements : List Expr)
  | unary (op : UnaryOp) (operand : Expr)
  | binary (op : BinaryOp) (left right : Expr)
  | lambda (captures : List String) (params : List (String × Ty)) (result : Ty) (body : List Stmt)
  /-- A body in the place of an expression: a lambda that is called at once. -/
  | block (result : Ty) (body : List Stmt)
  /-- Nothing, where there is no value. -/
  | absent

/-- **A statement of the target.** -/
inductive Stmt where
  | define (ty : Ty) (name : String) (init : Expr)
  | assign (target : String) (op : AssignOp) (e : Expr)
  | branch (condition : Expr) (yes no : List Stmt)
  | eval (e : Expr)
  | give (e : Expr)
  /-- Return without a value. -/
  | leave

end

/-- **What is known of a function from outside.** -/
structure Signature where
  /-- Its name in the source. -/
  name : String
  /-- Its parameters. -/
  params : List (String × Ty)
  /-- The type of its result. -/
  result : Ty
  /-- Whether the program starts there. -/
  isEntry : Bool

/-- The name that the target knows a function by. -/
def Signature.symbol (s : Signature) : String := if s.isEntry then "main" else s.name

/-- **A top-level item of the target.** -/
inductive Item where
  | declareBuiltin (b : Builtin)
  | defineBuiltin (b : Builtin)
  | declareFunction (s : Signature)
  | defineFunction (s : Signature) (body : List Stmt)
  | declareConstant (name : String) (ty : Ty)
  | defineConstant (name : String) (ty : Ty) (init : Expr)

/-- The name that an item introduces. -/
def Item.symbol : Item → String
  | .declareBuiltin b | .defineBuiltin b => b.name
  | .declareFunction s | .defineFunction s _ => s.symbol
  | .declareConstant name _ | .defineConstant name _ _ => name

end Stagewise.Target
