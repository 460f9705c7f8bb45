import Stagewise.Data.Printer
import Stagewise.Target.Tree

/-!
# Text of target programs

Operators are printed with parentheses around them, so no precedence is needed
to read a program back. A statement takes a line, or several if it is a branch,
and each level of branches is indented by four blanks. The statements of a
lambda are indented from the left margin again, wherever the lambda is.
-/

namespace Stagewise.Target

/-- Items with commas between them. -/
def commas (items : List String) : String := String.intercalate ", " items

/-- A line at some level of indentation. -/
def line (level : Nat) (text : String) : String :=
  String.ofList (List.replicate (4 * level) ' ') ++ text ++ "\n"

/-- Parameters, each with its type in front. -/
def paramsText (params : List (String × Ty)) : String :=
  commas (params.map fun (name, ty) => ty.spelling ++ " " ++ name)

mutual

/-- **The text of an expression.** -/
def Expr.text : Expr → String
  | .int n => toString n.toInt
  | .float x => Decimal.Layout.program.text x
  | .bool b => if b then "true" else "false"
  | .string s => "std::string(" ++ Data.quote s ++ ")"
  | .name x => x
  | .call callee arguments => callee.text ++ "(" ++ commas (Expr.texts arguments) ++ ")"
  | .descriptor t => t.descriptor
  | .tupleType elements => Ty.describeTuple (Expr.texts elements)
  | .tuple elements => "std::make_tuple(" ++ commas (Expr.texts elements) ++ ")"
  | .braced ty elements => ty.spelling ++ "\x7b" ++ commas (Expr.texts elements) ++ "\x7d"
  | .unary op operand => "(" ++ op.text ++ operand.text ++ ")"
  | .binary op left right => "(" ++ left.text ++ " " ++ op.spelling ++ " " ++ right.text ++ ")"
  | .lambda captures params result body =>
    "[" ++ commas captures ++ "](" ++ paramsText params ++ ") -> " ++ result.spelling
      ++ " \x7b\n" ++ Stmt.texts 1 body ++ "\x7d"
  | .block result body =>
    "[&]() -> " ++ result.spelling ++ " \x7b\n" ++ Stmt.texts 1 body ++ "\x7d()"
  | .absent => ""

/-- The texts of several expressions. -/
def Expr.texts : List Expr → List String
  | [] => []
  | e :: es => e.text :: Expr.texts es

/-- **The lines of a statement** at some level of indentation. -/
def Stmt.text (level : Nat) : Stmt → String
  | .define ty name init => line level (ty.spelling ++ " " ++ name ++ " = " ++ init.text ++ ";")
  | .assign target op e => line level (target ++ " " ++ op.text ++ " " ++ e.text ++ ";")
  | .branch condition yes no =>
    line level ("if (" ++ condition.text ++ ") \x7b") ++ Stmt.texts (level + 1) yes
      ++ line level "\x7d else \x7b" ++ Stmt.texts (level + 1) no ++ line level "\x7d"
  | .eval e => line level (e.text ++ ";")
  | .give e => line level ("return " ++ e.text ++ ";")
  | .leave => line level "return;"

/-- The lines of several statements. -/
def Stmt.texts (level : Nat) : List Stmt → String
  | [] => ""
  | s :: ss => s.text level ++ Stmt.texts level ss

end

/-- A signature as the target writes it. -/
def Signature.header (s : Signature) : String :=
  if s.isEntry then "int " ++ s.symbol ++ "()"
  else s.result.spelling ++ " " ++ s.symbol ++ "(" ++ paramsText s.params ++ ")"

/-- **The text of an item.** -/
def Item.text : Item → String
  | .declareBuiltin b => b.declaration
  | .defineBuiltin b => b.definition
  | .declareFunction s => s.header ++ ";"
  | .defineFunction s body => s.header ++ " \x7b\n" ++ Stmt.texts 1 body ++ "\x7d"
  | .declareConstant name ty => "extern " ++ ty.spelling ++ " " ++ name ++ ";"
  | .defineConstant name ty init => ty.spelling ++ " " ++ name ++ " = " ++ init.text ++ ";"

end Stagewise.Target
