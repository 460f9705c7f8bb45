import Stagewise.Data.Tagged
import Stagewise.Ty.Basic

/-!
# Types as tagged data

`Ty.encode` writes a type as a tree of tagged nodes and `Ty.decode` reads one.
The reader takes two forms the writer never uses: a box around a type, which is
transparent, and a reference by number to a list of types the reader is given.
-/

namespace Stagewise.Ty

mutual

/-- **A type as tagged data.** -/
def encode : Ty → Data
  | .type => .node "TypeType" []
  | .int => .node "IntType" []
  | .float => .node "FloatType" []
  | .bool => .node "BoolType" []
  | .string => .node "StringType" []
  | .nil => .node "NilType" []
  | .tuple elements => .node "TupleType" [("elements", .array (encodeAll elements))]
  | .list element => .node "ListType" [("element", element.encode)]
  | .fn argument result =>
    .node "FnType" [("argument", argument.encode), ("return", result.encode)]
  | .struct name => .node "StructType" [("name", .string name)]

/-- Several types as tagged data. -/
def encodeAll : List Ty → List Data
  | [] => []
  | t :: ts => t.encode :: encodeAll ts

end

/-- The number that a reference writes: decimal digits, perhaps after a plus
sign. -/
def index? (id : String) : Option Nat :=
  let digits := match id.toList with
    | '+' :: cs => cs
    | cs => cs
  if digits.isEmpty then none
  else if digits.all Char.isDigit then
    some (digits.foldl (fun n c => n * 10 + (c.toNat - 48)) 0)
  else none

/-- The type that a reference stands for. -/
def ofId? (ids : List Ty) (id : String) : Option Ty := index? id >>= fun i => ids[i]?

mutual

/-- **The type that tagged data stands for**, with `ids` for the references in
it. -/
def decode (ids : List Ty) (d : Data) : Except DecodeError Ty :=
  match _h : d.tagged with
  | .error e => .error e
  | .ok (tag, fields) =>
    if tag = "TypeType" then .ok .type
    else if tag = "IntType" then .ok .int
    else if tag = "FloatType" then .ok .float
    else if tag = "BoolType" then .ok .bool
    else if tag = "StringType" then .ok .string
    else if tag = "NilType" then .ok .nil
    else if tag = "TupleType" then
      match _k : fields.lookup "elements" with
      | some (.array items) => .tuple <$> decodeAll ids items
      | _ => .error (.badField tag "elements")
    else if tag = "ListType" then
      match _k : fields.lookup "element" with
      | some e => .list <$> decode ids e
      | none => .error (.badField tag "element")
    else if tag = "FnType" then
      match _k : fields.lookup "argument" with
      | none => .error (.badField tag "argument")
      | some a =>
        match decode ids a with
        | .error e => .error e
        | .ok argument =>
          match _k : fields.lookup "return" with
          | none => .error (.badField tag "return")
          | some r => .fn argument <$> decode ids r
    else if tag = "StructType" then
      match fields.lookup "name" with
      | some (.string name) => .ok (.struct name)
      | _ => .error (.badField tag "name")
    else if tag = "TypeId" then
      match fields.lookup "value" with
      | some (.string id) =>
        match ofId? ids id with
        | some t => .ok t
        | none => .error (.unknownTypeId id)
      | _ => .error (.badField tag "value")
    else if tag = "Box" then
      match _k : fields.lookup "value" with
      | some e => decode ids e
      | none => .error (.badField tag "value")
    else .error (.unknownTag tag)
termination_by sizeOf d
decreasing_by all_goals first | exact Data.sizeOf_field_lt _h _k | exact Data.sizeOf_items_lt _h _k

/-- The types that a list of tagged data stands for; the first failure
counts. -/
def decodeAll (ids : List Ty) (items : List Data) : Except DecodeError (List Ty) :=
  match items with
  | [] => .ok []
  | d :: items =>
    match decode ids d with
    | .error e => .error e
    | .ok t => (t :: ·) <$> decodeAll ids items
termination_by sizeOf items

end

end Stagewise.Ty
