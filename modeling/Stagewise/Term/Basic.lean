import Stagewise.Scope
import Stagewise.Value.Basic

/-!
# Checked trees

Checking turns source trees into **terms**. A term has a type on every node, and
a name in it comes with what it refers to; folding and lowering look at terms
only and never at the source.

A tuple of types is ambiguous, it may be a tuple of values that happen to be
types, or the type that is the tuple of them. The type on the node tells: the
latter has type `Ty.type`.
-/

namespace Stagewise

mutual

/-- **A checked expression.** -/
structure Term where
  /-- Where it is. -/
  span : Span
  /-- Its type. -/
  ty : Ty
  /-- What it is. -/
  node : Term.Node

/-- What a checked expression is. -/
inductive Term.Node where
  | int (n : Int64)
  | float (x : Float)
  | bool (b : Bool)
  | string (s : String)
  | var (name : String) (binding : Binding)
  | call (callee : Term) (arguments : List Term)
  | tuple (elements : List Term)
  | list (elements : List Term)
  | unary (op : UnaryOp) (operand : Term)
  | binary (op : BinaryOp) (left right : Term)
  /-- A closure, with the outer locals that its body refers to. -/
  | closure (params : List (String × Ty)) (captures : List String) (body : Term.Block)
  /-- A value that is known. -/
  | value (v : Value)

/-- **A checked block.** -/
structure Term.Block where
  /-- Where it is. -/
  span : Span
  /-- The type of its value. -/
  ty : Ty
  /-- Its statements. -/
  stmts : List Term.Stmt

/-- **A checked statement.** -/
inductive Term.Stmt where
  | bind (span : Span) (name : Name) (ty : Ty) (body : Term.Block)
  | assign (span : Span) (target : String) (op : AssignOp) (body : Term.Block)
  | branch (span : Span) (ty : Ty) (condition : Term) (yes no : Term.Block)
  | eval (e : Term)

end

namespace Term

/-- Where a statement is. -/
def Stmt.span : Stmt → Span
  | .bind s _ _ _ | .assign s _ _ _ | .branch s _ _ _ _ => s
  | .eval e => e.span

/-- The type of the value that a statement leaves behind. -/
def Stmt.ty : Stmt → Ty
  | .bind _ _ _ _ | .assign _ _ _ _ => .unit
  | .branch _ t _ _ _ => t
  | .eval e => e.ty

/-- The type of the value that a sequence of statements leaves behind: that of
the last. -/
def resultTy (stmts : List Stmt) : Ty := (stmts.getLast?.map Stmt.ty).getD .unit

namespace Block

/-- The expression of a block that is nothing else. -/
def expression? : Block → Option Term
  | ⟨_, _, [.eval e]⟩ => some e
  | _ => none

/-- The place of the statement that gives the block its value. -/
def resultSpan (b : Block) : Span := (b.stmts.getLast?.map Stmt.span).getD b.span

end Block

/-! ## The declarations a term refers to -/

mutual

/-- **The top-level declarations a term refers to**, by name, in order and with
repetitions. -/
def globals : Term → List String
  | ⟨_, _, node⟩ => node.globals

/-- The top-level declarations a node refers to. -/
def Node.globals : Node → List String
  | .int _ | .float _ | .bool _ | .string _ | .value _ => []
  | .var _ (.global name) => [name]
  | .var _ (.lexical _) => []
  | .call callee arguments => callee.globals ++ globalsAll arguments
  | .tuple elements | .list elements => globalsAll elements
  | .unary _ operand => operand.globals
  | .binary _ left right => left.globals ++ right.globals
  | .closure _ _ body => body.globals

/-- The top-level declarations several terms refer to. -/
def globalsAll : List Term → List String
  | [] => []
  | t :: ts => t.globals ++ globalsAll ts

/-- The top-level declarations a block refers to. -/
def Block.globals : Block → List String
  | ⟨_, _, stmts⟩ => globalsStmts stmts

/-- The top-level declarations a sequence of statements refers to. -/
def globalsStmts : List Stmt → List String
  | [] => []
  | .bind _ _ _ body :: rest | .assign _ _ _ body :: rest => body.globals ++ globalsStmts rest
  | .branch _ _ condition yes no :: rest =>
    condition.globals ++ yes.globals ++ no.globals ++ globalsStmts rest
  | .eval e :: rest => e.globals ++ globalsStmts rest

end

end Term

end Stagewise
