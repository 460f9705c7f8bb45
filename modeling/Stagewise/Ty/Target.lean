import Stagewise.Ty.Basic

/-!
# Types in the target language

A type appears in an emitted program in two ways. `Ty.spelling` is the type of a
variable or of a function's result; `Ty.descriptor` is the type as a value, for
programs that compute with types while the module is being compiled.
-/

namespace Stagewise.Ty

mutual

/-- **The type as a target type.** A function's result comes first, then its
parameters. -/
def spelling : Ty → String
  | .type => "ty::Type"
  | .int => "int"
  | .float => "float"
  | .bool => "bool"
  | .string => "std::string"
  | .nil => "void"
  | .tuple elements => "std::tuple<" ++ String.intercalate ", " (spellings elements) ++ ">"
  | .list element => "std::vector<" ++ element.spelling ++ ">"
  | .fn (.tuple params) result =>
    "ty::Function<" ++ String.intercalate ", " (result.spelling :: spellings params) ++ ">"
  | .fn argument result => "ty::Function<" ++ result.spelling ++ ", " ++ argument.spelling ++ ">"
  | .struct name => "ty::" ++ name

/-- Several types as target types. -/
def spellings : List Ty → List String
  | [] => []
  | t :: ts => t.spelling :: spellings ts

end

/-- The value that describes a tuple type, from the descriptions of its
elements. -/
def describeTuple (elements : List String) : String :=
  "box(ty::TupleType\x7b .elements = \x7b " ++ String.intercalate ", " elements ++ " \x7d \x7d)"

mutual

/-- **The type as a target value.** -/
def descriptor : Ty → String
  | .type => "ty::TypeType\x7b\x7d"
  | .int => "ty::IntType\x7b\x7d"
  | .float => "ty::FloatType\x7b\x7d"
  | .bool => "ty::BoolType\x7b\x7d"
  | .string => "ty::StringType\x7b\x7d"
  | .nil => "ty::NilType\x7b\x7d"
  | .tuple elements => describeTuple (descriptors elements)
  | .list element => "box(ty::ListType\x7b .element = " ++ element.descriptor ++ " \x7d)"
  | .fn argument result =>
    "box(ty::FnType\x7b .argument = " ++ argument.descriptor ++ ", .returnType = "
      ++ result.descriptor ++ " \x7d)"
  | .struct name => "box(ty::StructType\x7b .name = \"" ++ name ++ "\" \x7d)"

/-- Several types as target values. -/
def descriptors : List Ty → List String
  | [] => []
  | t :: ts => t.descriptor :: descriptors ts

end

end Stagewise.Ty
