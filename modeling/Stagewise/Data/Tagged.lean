import Stagewise.Data.Printer

/-!
# Tagged data

What a backend sends describes itself: every node is an object whose field
`$tag` names the kind of node, and the other fields hold its parts.
`Data.tagged` splits a node into its tag and its fields, and the four ways a
decoder can refuse a node are the constructors of `DecodeError`.

A decoder reads fields in a fixed order and the first it cannot use is the one
it complains about. Fields it does not ask for are ignored.
-/

namespace Stagewise

/-- **Why a node could not be decoded.** -/
inductive DecodeError where
  /-- The node is no object with a tag; its text is kept. -/
  | notTagged (found : String)
  /-- No node of the expected kind has this tag. -/
  | unknownTag (tag : String)
  /-- A field is missing, or does not hold what belongs there. -/
  | badField (tag field : String)
  /-- A reference to a type that was not registered. -/
  | unknownTypeId (id : String)
  deriving DecidableEq, Repr

/-- The wording of a refusal. -/
def DecodeError.message : DecodeError → String
  | .notTagged found => "expected a tagged object, found " ++ found
  | .unknownTag tag => "unknown tag '" ++ tag ++ "'"
  | .badField tag field => "missing or malformed field '" ++ field ++ "' in '" ++ tag ++ "'"
  | .unknownTypeId id => "type id '" ++ id ++ "' does not refer to a registered type"

namespace Data

/-- The key of the field that holds the tag. -/
def tagKey : String := "$tag"

/-- A node with a tag and other fields. -/
def node (tag : String) (fields : Fields) : Data := .object ((tagKey, .string tag) :: fields)

/-- **The tag and the fields of a node.** -/
def tagged (d : Data) : Except DecodeError (String × Fields) :=
  match d with
  | .object fields =>
    match fields.lookup tagKey with
    | some (.string tag) => .ok (tag, fields)
    | _ => .error (.notTagged d.compact)
  | _ => .error (.notTagged d.compact)

@[simp] theorem tagged_node (tag : String) (fields : Fields) :
    (node tag fields).tagged = .ok (tag, (tagKey, .string tag) :: fields) := by
  simp [tagged, node]

/-- Only an object has a tag, and its fields are those of the object. -/
theorem eq_object_of_tagged {d : Data} {tag : String} {fields : Fields}
    (h : d.tagged = .ok (tag, fields)) : d = .object fields := by
  unfold tagged at h
  split at h
  · split at h
    · cases h; rfl
    · cases h
  · cases h

/-- A field of a node is smaller than the node. -/
theorem sizeOf_field_lt {d e : Data} {tag key : String} {fields : Fields}
    (h : d.tagged = .ok (tag, fields)) (k : fields.lookup key = some e) : sizeOf e < sizeOf d :=
  eq_object_of_tagged h ▸ sizeOf_lookup_lt k

/-- The items of a list in a field of a node are smaller than the node. -/
theorem sizeOf_items_lt {d : Data} {tag key : String} {fields : Fields} {items : List Data}
    (h : d.tagged = .ok (tag, fields)) (k : fields.lookup key = some (.array items)) :
    sizeOf items < sizeOf d :=
  eq_object_of_tagged h ▸ sizeOf_lookup_array_lt k

end Data

end Stagewise
