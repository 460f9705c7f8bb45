import Stagewise.Source.Tree

/-!
# Plain trees

A tree is **plain** if no text is left in it to be expanded. What is known about
a plain tree from its looks is final, for nothing new comes into it while it is
checked.
-/

namespace Stagewise.Source

variable {μ : Type}

mutual

/-- **An expression with nothing to expand.** -/
def Expr.isPlain : Expr μ → Bool
  | .int _ _ | .float _ _ | .bool _ _ | .string _ _ | .typeLiteral _ _ | .var _ => true
  | .call _ callee arguments => callee.isPlain && allPlain arguments
  | .tuple _ elements | .list _ elements => allPlain elements
  | .unary _ _ operand => operand.isPlain
  | .binary _ _ left right => left.isPlain && right.isPlain
  | .expand _ _ => false
  | .closure _ params result body => paramsPlain params && result.isPlain && body.isPlain

/-- Several of them. -/
def allPlain : List (Expr μ) → Bool
  | [] => true
  | e :: es => e.isPlain && allPlain es

/-- Parameters with nothing to expand in their ascriptions. -/
def paramsPlain : List (Param (Expr μ)) → Bool
  | [] => true
  | p :: ps => p.ascription.isPlain && paramsPlain ps

/-- A block with nothing to expand. -/
def Block.isPlain : Block μ → Bool
  | ⟨_, stmts⟩ => stmtsPlain stmts

/-- Statements with nothing to expand. -/
def stmtsPlain : List (Stmt μ) → Bool
  | [] => true
  | .bind _ _ ascription body :: rest => ascription.isPlain && body.isPlain && stmtsPlain rest
  | .assign _ _ _ body :: rest => body.isPlain && stmtsPlain rest
  | .branch _ condition yes no :: rest =>
    condition.isPlain && yes.isPlain && no.isPlain && stmtsPlain rest
  | .eval e :: rest => e.isPlain && stmtsPlain rest

end

/-- A function or constant with nothing to expand. -/
def Item.isPlain : Item → Bool
  | .function f => paramsPlain f.params && f.result.isPlain && f.body.isPlain
  | .constant c => c.ascription.isPlain && c.body.isPlain

end Stagewise.Source
