import Stagewise.Decimal.Layout
import Stagewise.Text.Quoted
import Stagewise.Value.Basic

/-!
# Values shown in a message

When a backend answers with a value of the wrong kind, the message shows the
value in full, with the kind of every part of it.
-/

namespace Stagewise

/-- Items between brackets. -/
def Listing.brackets (items : List String) : String := "[" ++ String.intercalate ", " items ++ "]"

mutual

/-- **A type with the kind of every part.** -/
def Ty.listing : Ty → String
  | .type => "Type"
  | .int => "Int"
  | .float => "Float"
  | .bool => "Bool"
  | .string => "String"
  | .nil => "Nil"
  | .tuple elements => "Tuple(" ++ Listing.brackets (Ty.listings elements) ++ ")"
  | .list element => "List(" ++ element.listing ++ ")"
  | .fn argument result =>
    "Fn \x7b argument: " ++ argument.listing ++ ", ret: " ++ result.listing ++ " \x7d"
  | .struct name => "Struct(" ++ Quoted.Convention.listing.quote name ++ ")"

/-- Several types, each with the kind of every part. -/
def Ty.listings : List Ty → List String
  | [] => []
  | t :: ts => t.listing :: Ty.listings ts

end

mutual

/-- **A value with the kind of every part.** -/
def Value.listing : Value → String
  | .int n => "Int(" ++ toString n.toInt ++ ")"
  | .float x => "Float(" ++ Decimal.Layout.program.text x ++ ")"
  | .bool b => "Bool(" ++ (if b then "true" else "false") ++ ")"
  | .string s => "String(" ++ Quoted.Convention.listing.quote s ++ ")"
  | .tuple elements => "Tuple(" ++ Listing.brackets (Value.listings elements) ++ ")"
  | .list elements => "List(" ++ Listing.brackets (Value.listings elements) ++ ")"
  | .type t => "Type(" ++ t.listing ++ ")"
  | .nil => "Nil"

/-- Several values, each with the kind of every part. -/
def Value.listings : List Value → List String
  | [] => []
  | v :: vs => v.listing :: Value.listings vs

end

end Stagewise
