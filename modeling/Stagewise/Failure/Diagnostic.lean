import Stagewise.Data.Tagged
import Stagewise.Location
import Stagewise.Operator
import Stagewise.Ty.Basic

/-!
# Diagnostics

A `Diagnostic` is something wrong with the module being compiled, at a place in
it. Compilation goes on after one with the other declarations, so that several
may be reported together.

Six of the complaints say that a type is not the expected one and differ in
where the type was expected; they share a constructor and are told apart by
their `Site`.
-/

namespace Stagewise

/-- Where a particular type is expected. -/
inductive Site where
  /-- Anywhere else. -/
  | plain
  /-- The value assigned to a variable. -/
  | assignment
  /-- The value of a body. -/
  | result
  /-- The value a variable is bound to. -/
  | variableBody
  /-- The value of a constant. -/
  | constantBody
  /-- An argument of a call. -/
  | argument
  deriving DecidableEq, Repr

/-- **Something wrong with the module.** -/
inductive Diagnostic where
  /-- A name in an expression refers to nothing. -/
  | undefinedVariable (name : String) (span : Span)
  /-- A name in an ascription refers to nothing. -/
  | undefinedType (name : String) (span : Span)
  /-- A name is declared again in the scope that already has it. -/
  | duplicate (name : String) (first second : Span)
  /-- What is called is no function. -/
  | notAFunction (found : Ty) (span : Span)
  /-- A call has too many or too few arguments. -/
  | arity (expected found : Nat) (span : Span)
  /-- A type is not the one expected there. -/
  | mismatch (site : Site) (expected found : Ty) (span : Span)
  /-- The condition of a branch is no truth value. -/
  | condition (found : Ty) (span : Span)
  /-- The two arms of a branch have different types. -/
  | arms (yes : Ty) (yesSpan : Span) (no : Ty) (noSpan : Span)
  /-- The entry point has the wrong type. -/
  | entryPoint (found : Ty) (span : Span)
  /-- An operator does not apply to its operand. -/
  | unary (op : UnaryOp) (found : Ty) (span : Span)
  /-- An operator does not apply to its operands. -/
  | binary (op : BinaryOp) (left right : Ty) (span : Span)
  /-- The target of an assignment is no local variable. -/
  | notAssignable (name : String) (span : Span)
  /-- An expander returned a message. -/
  | expansionFailed (name message : String) (span : Span)
  /-- An expander returned something that is no expression. -/
  | expansionInvalid (name : String) (cause : DecodeError) (span : Span)
  deriving DecidableEq, Repr

namespace Diagnostic

/-- The place a diagnostic is about. -/
def span : Diagnostic → Span
  | .undefinedVariable _ s | .undefinedType _ s | .duplicate _ _ s | .notAFunction _ s
  | .arity _ _ s | .mismatch _ _ _ s | .condition _ s | .arms _ s _ _ | .entryPoint _ s
  | .unary _ _ s | .binary _ _ _ s | .notAssignable _ s | .expansionFailed _ _ s
  | .expansionInvalid _ _ s => s

/-- A text between single quotes. -/
def cited (s : String) : String := "'" ++ s ++ "'"

/-- What was expected at a site, in words. -/
def expectation (expected : String) : Site → String
  | .plain => "type " ++ expected
  | .assignment => "variable type " ++ expected ++ " for assignment"
  | .result => "return type " ++ expected
  | .variableBody => "declared variable type " ++ expected
  | .constantBody => "declared constant type " ++ expected
  | .argument => "argument type " ++ expected

/-- The wording of a diagnostic, without the place. -/
def complaint : Diagnostic → String
  | .undefinedVariable name _ => "variable " ++ cited name ++ " is not defined"
  | .undefinedType name _ => "type " ++ cited name ++ " is not defined"
  | .duplicate name first _ =>
    cited name ++ " previously defined at " ++ first.text ++ " is redefined"
  | .notAFunction found _ => "function call on non-function type " ++ cited found.text
  | .arity expected found _ =>
    "expected " ++ toString expected ++ " element(s), found " ++ toString found
  | .mismatch site expected found _ =>
    "expected " ++ expectation (cited expected.text) site ++ ", found " ++ cited found.text
  | .condition found _ => "expected type 'Bool' for condition, found " ++ cited found.text
  | .arms yes _ no noSpan =>
    "branch types " ++ cited yes.text ++ " and " ++ cited no.text
      ++ " (at " ++ noSpan.text ++ ") are not equal"
  | .entryPoint found _ =>
    "the entry point must have type " ++ cited Ty.entryPoint.text ++ ", found " ++ cited found.text
  | .unary op found _ =>
    "unary operator " ++ op.text ++ " cannot be applied to type " ++ cited found.text
  | .binary op left right _ =>
    "binary operator " ++ op.text ++ " cannot be applied to types " ++ cited left.text
      ++ " and " ++ cited right.text
  | .notAssignable name _ => cited name ++ " cannot be assigned to"
  | .expansionFailed name message _ => "macro " ++ cited name ++ " failed: " ++ message
  | .expansionInvalid name cause _ =>
    "macro " ++ cited name ++ " produced invalid output: " ++ cause.message

/-- **The message of a diagnostic**: the place, then the complaint. -/
def message (d : Diagnostic) : String := "at " ++ d.span.text ++ ": " ++ d.complaint

end Diagnostic

end Stagewise
