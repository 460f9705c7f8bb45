import Stagewise.Ty.Tagged
import Stagewise.Value.Basic

/-!
# Values as tagged data

`Value.encode` writes a value as a tree of tagged nodes and `Value.decode` reads
one. A double that is infinite or not a number has no data form: it is written
as null, and null is not read as a double.
-/

namespace Stagewise.Value

mutual

/-- **A value as tagged data.** -/
def encode : Value → Data
  | .int n => .node "Int" [("value", .ofInt n.toInt)]
  | .float x => .node "Float" [("value", .ofFloat x)]
  | .bool b => .node "Bool" [("value", .bool b)]
  | .string s => .node "String" [("value", .string s)]
  | .tuple elements => .node "Tuple" [("elements", .array (encodeAll elements))]
  | .list elements => .node "List" [("elements", .array (encodeAll elements))]
  | .type t => .node "Type" [("value", t.encode)]
  | .nil => .node "Nil" []

/-- Several values as tagged data. -/
def encodeAll : List Value → List Data
  | [] => []
  | v :: vs => v.encode :: encodeAll vs

end

mutual

/-- **The value that tagged data stands for**, with `ids` for the types referred
to in it. -/
def decode (ids : List Ty) (d : Data) : Except DecodeError Value :=
  match _h : d.tagged with
  | .error e => .error e
  | .ok (tag, fields) =>
    if tag = "Int" then
      match fields.lookup "value" >>= Data.int64? with
      | some n => .ok (.int n)
      | none => .error (.badField tag "value")
    else if tag = "Float" then
      match fields.lookup "value" >>= Data.float? with
      | some x => .ok (.float x)
      | none => .error (.badField tag "value")
    else if tag = "Bool" then
      match fields.lookup "value" >>= Data.bool? with
      | some b => .ok (.bool b)
      | none => .error (.badField tag "value")
    else if tag = "String" then
      match fields.lookup "value" >>= Data.text? with
      | some s => .ok (.string s)
      | none => .error (.badField tag "value")
    else if tag = "Tuple" then
      match _k : fields.lookup "elements" with
      | some (.array items) => .tuple <$> decodeAll ids items
      | _ => .error (.badField tag "elements")
    else if tag = "List" then
      match _k : fields.lookup "elements" with
      | some (.array items) => .list <$> decodeAll ids items
      | _ => .error (.badField tag "elements")
    else if tag = "Type" then
      match fields.lookup "value" with
      | some e => .type <$> Ty.decode ids e
      | none => .error (.badField tag "value")
    else if tag = "Nil" then .ok .nil
    else .error (.unknownTag tag)
termination_by sizeOf d
decreasing_by all_goals exact Data.sizeOf_items_lt _h _k

/-- The values that a list of tagged data stands for; the first failure
counts. -/
def decodeAll (ids : List Ty) (items : List Data) : Except DecodeError (List Value) :=
  match items with
  | [] => .ok []
  | d :: items =>
    match decode ids d with
    | .error e => .error e
    | .ok v => (v :: ·) <$> decodeAll ids items
termination_by sizeOf items

end

end Stagewise.Value
