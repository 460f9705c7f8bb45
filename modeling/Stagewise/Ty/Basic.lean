/-!
# Types

Types are values of the language: an ascription is an expression whose value is
a `Ty`, and `Ty.type` is the type of such expressions. Equality of types is
equality of trees, there being no subtyping and no conversion between types.

A function type has one argument type. It is a tuple, one element per parameter,
for every function that is declared (`Ty.functionOf`), but a type that was
computed may have any argument type.
-/

namespace Stagewise

/-- **A structural type.** -/
inductive Ty where
  /-- The type of types. -/
  | type
  | int
  | float
  | bool
  | string
  /-- The type of what has no value. -/
  | nil
  | tuple (elements : List Ty)
  | list (element : Ty)
  | fn (argument result : Ty)
  /-- A type known by its name alone. -/
  | struct (name : String)
  deriving Repr

namespace Ty

/-! ## Equality -/

mutual

/-- Whether two types are the same tree. -/
def same : Ty → Ty → Bool
  | .type, .type | .int, .int | .float, .float | .bool, .bool | .string, .string
  | .nil, .nil => true
  | .tuple as, .tuple bs => sameAll as bs
  | .list a, .list b => same a b
  | .fn a r, .fn b s => same a b && same r s
  | .struct a, .struct b => a == b
  | _, _ => false

/-- Whether two lists of types are the same, element by element. -/
def sameAll : List Ty → List Ty → Bool
  | [], [] => true
  | a :: as, b :: bs => same a b && sameAll as bs
  | _, _ => false

end

mutual

theorem same_iff : (a b : Ty) → (same a b = true ↔ a = b)
  | .tuple as, b => by cases b <;> simp [same, sameAll_iff as]
  | .list a, b => by cases b <;> simp [same, same_iff a]
  | .fn a r, b => by cases b <;> simp [same, same_iff a, same_iff r]
  | .struct a, b => by cases b <;> simp [same]
  | .type, b | .int, b | .float, b | .bool, b | .string, b | .nil, b => by cases b <;> simp [same]

theorem sameAll_iff : (as bs : List Ty) → (sameAll as bs = true ↔ as = bs)
  | [], bs => by cases bs <;> simp [sameAll]
  | a :: as, bs => by cases bs <;> simp [sameAll, same_iff a, sameAll_iff as]

end

instance : DecidableEq Ty := fun a b => decidable_of_iff _ (same_iff a b)

/-! ## Particular types -/

/-- The empty tuple, the type of statements that leave no value behind. -/
def unit : Ty := .tuple []

/-- The type of a function with these parameters: its argument is the tuple of
them. -/
def functionOf (params : List Ty) (result : Ty) : Ty := .fn (.tuple params) result

/-- The type an entry point must have. -/
def entryPoint : Ty := functionOf [] unit

/-- The type of the expressions that expanders return. -/
def expression : Ty := .struct "Expression"

/-- **The type of an expander**: from the text of an invocation and the type
expected there, to a message and an expression. -/
def expander : Ty := functionOf [.string, .type] (.tuple [.string, expression])

/-- Whether arithmetic applies to values of the type. -/
def isNumeric : Ty → Bool
  | .int | .float => true
  | _ => false

/-- The types of the arguments a function of this argument type is called
with. -/
def parameters : Ty → List Ty
  | .tuple params => params
  | single => [single]

/-! ## Spelling -/

mutual

/-- **The type as a message spells it.** -/
def text : Ty → String
  | .type => "Type"
  | .int => "Int"
  | .float => "Float"
  | .bool => "Bool"
  | .string => "String"
  | .nil => "Nil"
  | .tuple elements => "(" ++ String.intercalate ", " (texts elements) ++ ")"
  | .list element => "List(" ++ element.text ++ ")"
  | .fn argument result => "Fn(" ++ argument.text ++ ", " ++ result.text ++ ")"
  | .struct name => name

/-- The spellings of several types. -/
def texts : List Ty → List String
  | [] => []
  | t :: ts => t.text :: texts ts

end

end Ty

end Stagewise
