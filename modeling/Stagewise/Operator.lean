/-!
# Operators

Three families of operators: those before one operand, those between two, and
those that assign. Each has a spelling in the source, which messages use and
which exchanged syntax trees carry; the target spells the two connectives its
own way.

Operators between two operands fall into four groups by what they take and give:
arithmetic, ordering, equality and connectives.
-/

namespace Stagewise

/-- Operators before one operand. -/
inductive UnaryOp where
  | negate
  | not
  deriving DecidableEq, Repr

/-- Operators between two operands. -/
inductive BinaryOp where
  | add
  | sub
  | mul
  | div
  | less
  | greater
  | lessEqual
  | greaterEqual
  | equal
  | notEqual
  | and
  | or
  deriving DecidableEq, Repr

/-- Operators that assign. -/
inductive AssignOp where
  | assign
  | addAssign
  | subAssign
  | mulAssign
  | divAssign
  deriving DecidableEq, Repr

namespace UnaryOp

/-- All of them. -/
def all : List UnaryOp := [.negate, .not]

/-- The spelling, in source and target alike. -/
def text : UnaryOp → String
  | .negate => "-"
  | .not => "!"

/-- The operator of a spelling. -/
def ofText? (s : String) : Option UnaryOp := all.find? (·.text = s)

end UnaryOp

namespace BinaryOp

/-- All of them. -/
def all : List BinaryOp :=
  [.add, .sub, .mul, .div, .less, .greater, .lessEqual, .greaterEqual, .equal, .notEqual, .and, .or]

/-- **What an operator takes and gives.** -/
inductive Group where
  /-- Two numbers of one type, giving that type. -/
  | arithmetic
  /-- Two numbers of one type, giving a truth value. -/
  | ordering
  /-- Two operands of any one type, giving a truth value. -/
  | equality
  /-- Two truth values, giving a truth value. -/
  | connective
  deriving DecidableEq, Repr

/-- The group of an operator. -/
def group : BinaryOp → Group
  | .add | .sub | .mul | .div => .arithmetic
  | .less | .greater | .lessEqual | .greaterEqual => .ordering
  | .equal | .notEqual => .equality
  | .and | .or => .connective

/-- The spelling in the source. -/
def text : BinaryOp → String
  | .add => "+"
  | .sub => "-"
  | .mul => "*"
  | .div => "/"
  | .less => "<"
  | .greater => ">"
  | .lessEqual => "<="
  | .greaterEqual => ">="
  | .equal => "=="
  | .notEqual => "!="
  | .and => "and"
  | .or => "or"

/-- The spelling in the target. -/
def spelling : BinaryOp → String
  | .and => "&&"
  | .or => "||"
  | op => op.text

/-- The operator of a spelling in the source. -/
def ofText? (s : String) : Option BinaryOp := all.find? (·.text = s)

end BinaryOp

namespace AssignOp

/-- All of them. -/
def all : List AssignOp := [.assign, .addAssign, .subAssign, .mulAssign, .divAssign]

/-- The operator that a compound assignment applies. -/
def binary? : AssignOp → Option BinaryOp
  | .assign => none
  | .addAssign => some .add
  | .subAssign => some .sub
  | .mulAssign => some .mul
  | .divAssign => some .div

/-- The spelling, in source and target alike. -/
def text : AssignOp → String
  | .assign => "="
  | .addAssign => "+="
  | .subAssign => "-="
  | .mulAssign => "*="
  | .divAssign => "/="

/-- The operator of a spelling. -/
def ofText? (s : String) : Option AssignOp := all.find? (·.text = s)

end AssignOp

end Stagewise
