import Stagewise.Target.Tree
import Stagewise.Term.Basic

/-!
# Lowering

Terms become trees of the target language node by node. What needs care are
blocks. The value of a block used as an expression is returned from a lambda
that is called at once, unless the block is a single expression, and the value
of a body is returned from it: the **sink** says whether the last statement of a
block returns its value or leaves it unused.

A value known while compiling is lowered at a type. The type of a list is needed
to write it, and a tuple lowers its elements at the types of the tuple's.
-/

namespace Stagewise

open Target (Expr)

/-! ## Values -/

mutual

/-- **A value as an expression of a type.** Where the value does not have the
type, what can be written is the type's default. -/
def Value.lower : Value → Ty → Expr
  | .int n, _ => .int n
  | .float x, _ => .float x
  | .bool b, _ => .bool b
  | .string s, _ => .string s
  | .type t, _ => .descriptor t
  | .nil, _ => .absent
  | .tuple vs, .tuple ts => .tuple (Value.lowerEach vs ts)
  | .list vs, .list t => .braced (.list t) (Value.lowerAll vs t)
  | .tuple _, ty | .list _, ty => .braced ty []

/-- Values as expressions, each at its own type, as long as there are both. -/
def Value.lowerEach : List Value → List Ty → List Expr
  | v :: vs, t :: ts => v.lower t :: Value.lowerEach vs ts
  | _, _ => []

/-- Values as expressions of one type. -/
def Value.lowerAll : List Value → Ty → List Expr
  | [], _ => []
  | v :: vs, t => v.lower t :: Value.lowerAll vs t

end

/-! ## Terms -/

/-- **What becomes of the value of a block.** -/
inductive Sink where
  /-- It is returned. -/
  | give
  /-- It is not used. -/
  | discard
  deriving DecidableEq, Repr

namespace Sink

/-- What follows a statement that leaves no value of its own: in a body that
returns one, the return of the empty tuple. -/
def unit : Sink → List Target.Stmt
  | .give => [.give (.tuple [])]
  | .discard => []

/-- The last expression of a block. One without a value is evaluated before the
return. -/
def expression (sink : Sink) (ty : Ty) (e : Expr) : List Target.Stmt :=
  match sink with
  | .discard => [.eval e]
  | .give => if ty = .nil then [.eval e, .leave] else [.give e]

end Sink

namespace Term

mutual

/-- **A term as an expression of the target.** -/
def lower : Term → Expr
  | ⟨_, ty, node⟩ => node.lower ty

/-- A node of a type as an expression. -/
def Node.lower (ty : Ty) : Node → Expr
  | .int n => .int n
  | .float x => .float x
  | .bool b => .bool b
  | .string s => .string s
  | .var name _ => .name name
  | .call callee arguments => .call callee.lower (lowerAll arguments)
  | .tuple elements =>
    if ty = .type then .tupleType (lowerAll elements) else .tuple (lowerAll elements)
  | .list elements => .braced ty (lowerAll elements)
  | .unary op operand => .unary op operand.lower
  | .binary op left right => .binary op left.lower right.lower
  | .closure params captures body => .lambda captures params body.ty (body.lower .give)
  | .value v => v.lower ty

/-- Several terms as expressions. -/
def lowerAll : List Term → List Expr
  | [] => []
  | t :: ts => t.lower :: lowerAll ts

/-- **The statements of a block.** -/
def Block.lower (sink : Sink) : Block → List Target.Stmt
  | ⟨_, _, stmts⟩ => lowerStmts sink stmts

/-- A block as an expression. -/
def Block.value : Block → Expr
  | ⟨_, _, [.eval e]⟩ => e.lower
  | ⟨_, ty, stmts⟩ => .block ty (lowerStmts .give stmts)

/-- The statements of a sequence, of which the last goes to the sink. -/
def lowerStmts (sink : Sink) : List Stmt → List Target.Stmt
  | [] => sink.unit
  | [s] => s.lower sink
  | s :: rest => s.lower .discard ++ lowerStmts sink rest

/-- One statement. -/
def Stmt.lower (sink : Sink) : Stmt → List Target.Stmt
  | .bind _ name ty body => .define ty name.text body.value :: sink.unit
  | .assign _ target op body => .assign target op body.value :: sink.unit
  | .branch _ _ condition yes no => [.branch condition.lower (yes.lower sink) (no.lower sink)]
  | .eval e => sink.expression e.ty e.lower

end

end Term

/-! ## Items -/

namespace Target

/-- The item that defines a function. The body of the entry point returns
nothing, and zero after that. -/
def Item.function (s : Signature) (body : Term.Block) : Item :=
  if s.isEntry then .defineFunction s (body.lower .discard ++ [.give (.int 0)])
  else .defineFunction s (body.lower .give)

/-- The item that defines a constant whose value is computed when the program
starts. -/
def Item.computed (name : String) (ty : Ty) (body : Term.Block) : Item :=
  .defineConstant name ty body.value

/-- The item that defines a constant whose value is known. -/
def Item.known (name : String) (ty : Ty) (v : Value) : Item := .defineConstant name ty (v.lower ty)

end Target

end Stagewise
