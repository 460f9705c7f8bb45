import Stagewise.Ty.Target

/-!
# Built-in declarations

Every module starts with nine declarations: seven names for types, and the two
constructors `List` and `Fn`, functions that take types to a type.
-/

namespace Stagewise

/-- **What every module starts with.** -/
inductive Builtin where
  | type
  | int
  | float
  | bool
  | string
  | nil
  | expression
  | list
  | fn
  deriving DecidableEq, Repr

namespace Builtin

/-- All of them, in the order they are declared. -/
def all : List Builtin := [.type, .int, .float, .bool, .string, .nil, .expression, .list, .fn]

/-- The name that refers to a built-in. -/
def name : Builtin → String
  | .type => "Type"
  | .int => "Int"
  | .float => "Float"
  | .bool => "Bool"
  | .string => "String"
  | .nil => "Nil"
  | .expression => "Expression"
  | .list => "List"
  | .fn => "Fn"

/-- The built-in of a name. -/
def ofName? (name : String) : Option Builtin := all.find? (·.name = name)

/-- The type that a built-in names; the constructors name none. -/
def alias? : Builtin → Option Ty
  | .type => some .type
  | .int => some .int
  | .float => some .float
  | .bool => some .bool
  | .string => some .string
  | .nil => some .nil
  | .expression => some .expression
  | .list | .fn => none

/-- The type of a built-in itself. -/
def ty : Builtin → Ty
  | .list => .functionOf [.type] .type
  | .fn => .functionOf [.type, .type] .type
  | _ => .type

/-- **A constructor applied to types**; nothing for other built-ins and other
numbers of types. -/
def construct? : Builtin → List Ty → Option Ty
  | .list, [element] => some (.list element)
  | .fn, [argument, result] => some (.fn argument result)
  | _, _ => none

/-- The target text that declares a built-in. -/
def declaration : Builtin → String
  | .list => "ty::Type List(ty::Type element);"
  | .fn => "ty::Type Fn(ty::Type argument, ty::Type returnType);"
  | b => "extern const ty::Type " ++ b.name ++ ";"

/-- The target text that defines a built-in. -/
def definition (b : Builtin) : String :=
  match b.alias?, b with
  | some t, _ => "const ty::Type " ++ b.name ++ " = " ++ t.descriptor ++ ";"
  | none, .list =>
    "ty::Type List(ty::Type element) \x7b\n" ++
      "    return box(ty::ListType\x7b .element = element \x7d);\n\x7d"
  | none, _ =>
    "ty::Type Fn(ty::Type argument, ty::Type returnType) \x7b\n" ++
      "    return box(ty::FnType\x7b .argument = argument, .returnType = returnType \x7d);\n\x7d"

end Builtin

end Stagewise
