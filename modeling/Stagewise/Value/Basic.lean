import Stagewise.Ty.Basic

/-!
# Values known while compiling

A `Value` is what an expression turns out to be before the program runs: a
literal, a tuple or list of values, or a type. Values are compared by
`Value.same`, which is equality of trees but for doubles: there the two zeros
are the same value, and so is every double that is not a number.
-/

namespace Stagewise

/-- **A value known while compiling.** -/
inductive Value where
  | int (n : Int64)
  | float (x : Float)
  | bool (b : Bool)
  | string (s : String)
  | tuple (elements : List Value)
  | list (elements : List Value)
  | type (t : Ty)
  | nil

/-! ## Doubles in a total order -/

namespace Double

/-- **The order of doubles**: that of numbers, with everything that is not a
number on top. -/
def compare (x y : Float) : Ordering :=
  if x < y then .lt
  else if y < x then .gt
  else if x == y then .eq
  else if x.isNaN then if y.isNaN then .eq else .gt
  else .lt

/-- Whether two doubles are the same value. -/
def same (x y : Float) : Bool := compare x y == .eq

end Double

namespace Value

/-- The type that a value is, if it is one. -/
def type? : Value → Option Ty
  | .type t => some t
  | _ => none

mutual

/-- **Whether two values are the same.** -/
def same : Value → Value → Bool
  | .int m, .int n => m == n
  | .float x, .float y => Double.same x y
  | .bool a, .bool b => a == b
  | .string s, .string t => s == t
  | .tuple vs, .tuple ws => sameAll vs ws
  | .list vs, .list ws => sameAll vs ws
  | .type t, .type u => t == u
  | .nil, .nil => true
  | _, _ => false

/-- Whether two lists of values are the same, element by element. -/
def sameAll : List Value → List Value → Bool
  | [], [] => true
  | v :: vs, w :: ws => same v w && sameAll vs ws
  | _, _ => false

end

end Value

end Stagewise
