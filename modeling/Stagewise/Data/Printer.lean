import Stagewise.Data.Basic
import Stagewise.Decimal.Layout
import Stagewise.Text.Quoted

/-!
# Compact text of data

`Data.compact` writes a tree on one line with no blanks. Objects are written in
the order of their fields, which for data that was read is the order of the
keys.
-/

namespace Stagewise

/-- The text of a number. -/
def Number.text : Number → String
  | .int n => toString n
  | .double x _ => Decimal.Layout.data.text x

/-- The text of a string between quotes. -/
def Data.quote (s : String) : String := Quoted.Convention.data.quote s

mutual

/-- **The text of a tree**, with no blanks in it. -/
def Data.compact : Data → String
  | .null => "null"
  | .bool b => if b then "true" else "false"
  | .number n => n.text
  | .string s => Data.quote s
  | .array items => "[" ++ String.intercalate "," (Data.compactItems items) ++ "]"
  | .object fields => "\x7b" ++ String.intercalate "," (Data.compactFields fields) ++ "\x7d"

/-- The texts of the items of a list. -/
def Data.compactItems : List Data → List String
  | [] => []
  | d :: items => d.compact :: Data.compactItems items

/-- The texts of the fields of an object. -/
def Data.compactFields : Data.Fields → List String
  | [] => []
  | (key, d) :: fields => (Data.quote key ++ ":" ++ d.compact) :: Data.compactFields fields

end

end Stagewise
