import Stagewise.Declaration.Builtin
import Stagewise.Integer
import Stagewise.Term.Basic

/-!
# Folding

A term whose value does not depend on the backend is folded: literals, tuples
and lists, operators, names of declarations whose value is known, and the two
built-in constructors of types. Anything else has no value here, and is left to
the backend.

Integer arithmetic that leaves the sixty-four bit range has no value either, and
neither has a division by zero. Both operands of a connective are folded before
it is applied, so `false and x` has a value only if `x` has one.
-/

namespace Stagewise

/-- **Values of declarations**, by name. -/
abbrev Values := List (String × Value)

namespace Fold

/-! ## Operators -/

/-- An operator applied to one value. -/
def unary : UnaryOp → Value → Option Value
  | .negate, .int n => .int <$> Integer.fit (-n.toInt)
  | .negate, .float x => some (.float (-x))
  | .not, .bool b => some (.bool !b)
  | _, _ => none

/-- Arithmetic on integers. Division goes toward zero. -/
def intArithmetic (op : BinaryOp) (m n : Int64) : Option Int64 :=
  match op with
  | .add => Integer.fit (m.toInt + n.toInt)
  | .sub => Integer.fit (m.toInt - n.toInt)
  | .mul => Integer.fit (m.toInt * n.toInt)
  | .div => if n.toInt = 0 then none else Integer.fit (m.toInt.tdiv n.toInt)
  | _ => none

/-- Arithmetic on doubles. Only a division by zero has no value. -/
def floatArithmetic (op : BinaryOp) (x y : Float) : Option Float :=
  match op with
  | .add => some (x + y)
  | .sub => some (x - y)
  | .mul => some (x * y)
  | .div => if y == 0 then none else some (x / y)
  | _ => none

/-- Arithmetic on two numbers of one kind. -/
def arithmetic (op : BinaryOp) : Value → Value → Option Value
  | .int m, .int n => .int <$> intArithmetic op m n
  | .float x, .float y => .float <$> floatArithmetic op x y
  | _, _ => none

/-- Whether an ordering operator holds of two operands in this order. -/
def holds (op : BinaryOp) (o : Ordering) : Option Bool :=
  match op with
  | .less => some o.isLT
  | .greater => some o.isGT
  | .lessEqual => some o.isLE
  | .greaterEqual => some o.isGE
  | _ => none

/-- Two numbers of one kind compared. -/
def ordering (op : BinaryOp) : Value → Value → Option Value
  | .int m, .int n => .bool <$> holds op (compare m.toInt n.toInt)
  | .float x, .float y => .bool <$> holds op (Double.compare x y)
  | _, _ => none

/-- A connective applied to two truth values. -/
def connective (op : BinaryOp) : Value → Value → Option Value
  | .bool a, .bool b => some (.bool (if op = .and then a && b else a || b))
  | _, _ => none

/-- **An operator applied to two values.** -/
def binary (op : BinaryOp) (v w : Value) : Option Value :=
  match op.group with
  | .arithmetic => arithmetic op v w
  | .ordering => ordering op v w
  | .equality => some (.bool (if op = .equal then v.same w else !v.same w))
  | .connective => connective op v w

/-! ## Terms -/

/-- The types that values are, if all of them are types. -/
def types? (vs : List Value) : Option (List Ty) := vs.mapM Value.type?

/-- The built-in that a term names. -/
def builtin? : Term → Option Builtin
  | ⟨_, _, .var _ (.global name)⟩ => Builtin.ofName? name
  | _ => none

mutual

/-- **The value of a term**, where `known` are the values of declarations. -/
def term (known : Values) : Term → Option Value
  | ⟨_, ty, node⟩ => Fold.node known ty node

/-- The value of a node of a type. -/
def node (known : Values) (ty : Ty) : Term.Node → Option Value
  | .int n => some (.int n)
  | .float x => some (.float x)
  | .bool b => some (.bool b)
  | .string s => some (.string s)
  | .value v => some v
  | .var _ (.global name) => known.lookup name
  | .var _ (.lexical _) => none
  | .tuple elements => do
    let vs ← terms known elements
    if ty = .type then return .type (.tuple (← types? vs)) else return .tuple vs
  | .list elements => .list <$> terms known elements
  | .unary op operand => do Fold.unary op (← term known operand)
  | .binary op left right => do
    let v ← term known left
    let w ← term known right
    Fold.binary op v w
  | .call callee arguments => do
    let b ← builtin? callee
    let vs ← terms known arguments
    .type <$> b.construct? (← types? vs)
  | .closure _ _ _ => none

/-- The values of several terms, if all have one. -/
def terms (known : Values) : List Term → Option (List Value)
  | [] => some []
  | t :: ts => do
    let v ← term known t
    let vs ← terms known ts
    return v :: vs

end

mutual

/-- **The value of a block**: of its only expression, or of the arm that its
only branch takes. -/
def block (known : Values) : Term.Block → Option Value
  | ⟨_, _, stmts⟩ => sole known stmts

/-- The value of a sequence that is a single statement. -/
def sole (known : Values) : List Term.Stmt → Option Value
  | [s] => stmt known s
  | _ => none

/-- The value of a statement. -/
def stmt (known : Values) : Term.Stmt → Option Value
  | .eval e => term known e
  | .branch _ _ condition yes no =>
    match term known condition with
    | some (.bool true) => block known yes
    | some (.bool false) => block known no
    | _ => none
  | .bind _ _ _ _ | .assign _ _ _ _ => none

end

end Fold

end Stagewise
