import Stagewise.Integer

/-!
# Exchanged data

A backend answers with a tree of `Data`: null, truth values, numbers, text,
lists and records. Numbers come in two kinds that are kept apart, because a
reader that asks for an integer must not be given `1.0`. A double is finite by
construction, there being no way to write another.

The fields of an object are a list of pairs in which `Data.object` looks a key
up from the front. `Data.ofFields` puts fields into the form a reader produces,
one pair per key, in the order of the keys.
-/

namespace Stagewise

/-- **A number as data**: an integer, or a finite double. -/
inductive Number where
  /-- A number written without point and exponent. -/
  | int (n : Int)
  /-- Any other number. -/
  | double (x : Float) (finite : x.isFinite = true)

namespace Number

/-- The number as a sixty-four bit integer. A double is none, however
integral. -/
def toInt64? : Number → Option Int64
  | .int n => Integer.fit n
  | .double _ _ => none

/-- The number as a double, rounding a large integer to the nearest. -/
def toFloat : Number → Float
  | .int n => Float.ofInt n
  | .double x _ => x

end Number

/-- **A tree of exchanged data.** -/
inductive Data where
  | null
  | bool (b : Bool)
  | number (n : Number)
  | string (s : String)
  | array (items : List Data)
  | object (fields : List (String × Data))

namespace Data

/-- The record of fields of an object. -/
abbrev Fields := List (String × Data)

/-- A finite double as data; null stands for the others. -/
def ofFloat (x : Float) : Data :=
  if h : x.isFinite = true then .number (.double x h) else .null

/-- An integer as data. -/
def ofInt (n : Int) : Data := .number (.int n)

/-- Insert a field before the first key above its own, replacing a field of the
same key. -/
def insertField (key : String) (d : Data) : Fields → Fields
  | [] => [(key, d)]
  | (k, e) :: fields =>
    if key < k then (key, d) :: (k, e) :: fields
    else if key = k then (key, d) :: fields
    else (k, e) :: insertField key d fields

/-- **An object**, its keys in order. Of several fields with one key the last
counts. -/
def ofFields (fields : Fields) : Data :=
  .object (fields.foldl (fun sorted f => insertField f.1 f.2 sorted) [])

/-- The text of a string, and nothing for other data. -/
def text? : Data → Option String
  | .string s => some s
  | _ => none

/-- A truth value, and nothing for other data. -/
def bool? : Data → Option Bool
  | .bool b => some b
  | _ => none

/-- A sixty-four bit integer, and nothing for other data. -/
def int64? : Data → Option Int64
  | .number n => n.toInt64?
  | _ => none

/-- A double, and nothing for data that is no number. -/
def float? : Data → Option Float
  | .number n => some n.toFloat
  | _ => none

/-- Null, and data that is missing, count as absent. -/
def present? : Option Data → Option Data
  | some .null => none
  | d => d

/-- A field is smaller than its object, so a decoder may recurse into it. -/
theorem sizeOf_lookup_lt {fields : Fields} {key : String} {d : Data}
    (h : fields.lookup key = some d) : sizeOf d < sizeOf (Data.object fields) := by
  induction fields with
  | nil => simp at h
  | cons f fields ih =>
    obtain ⟨k, e⟩ := f
    rw [List.lookup_cons] at h
    split at h
    · cases h
      simp only [Data.object.sizeOf_spec, List.cons.sizeOf_spec, Prod.mk.sizeOf_spec]
      omega
    · have := ih h
      simp only [Data.object.sizeOf_spec, List.cons.sizeOf_spec, Prod.mk.sizeOf_spec] at this ⊢
      omega

/-- The items of a list held in a field are smaller than the object. -/
theorem sizeOf_lookup_array_lt {fields : Fields} {key : String} {items : List Data}
    (h : fields.lookup key = some (.array items)) : sizeOf items < sizeOf (Data.object fields) := by
  have := sizeOf_lookup_lt h
  simp only [Data.array.sizeOf_spec] at this
  omega

end Data

end Stagewise
