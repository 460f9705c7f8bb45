/-!
# Reading a double

`Decimal.read?` reads a decimal number as the nearest double. There may be a
sign in front, digits on one side of the point are enough, and the two
infinities and what is not a number have names.
-/

namespace Stagewise.Decimal

/-- Digits at the front of a text, and the rest. -/
def leadingDigits (cs : List Char) : List Char × List Char :=
  (cs.takeWhile Char.isDigit, cs.dropWhile Char.isDigit)

/-- The number that decimal digits write. -/
def digitsValue (ds : List Char) : Nat := ds.foldl (fun n c => n * 10 + (c.toNat - 48)) 0

/-- An exponent that takes up all of a text; none at all is zero. -/
def exponent? : List Char → Option Int
  | [] => some 0
  | mark :: cs =>
    if mark = 'e' ∨ mark = 'E' then
      let (negative, cs) := match cs with
        | '+' :: cs => (false, cs)
        | '-' :: cs => (true, cs)
        | cs => (false, cs)
      let (ds, rest) := leadingDigits cs
      if ds.isEmpty ∨ !rest.isEmpty then none
      else some (if negative then -(digitsValue ds : Int) else digitsValue ds)
    else none

/-- A number without sign. -/
def magnitude? (cs : List Char) : Option Float := do
  let name := String.ofList (cs.map Char.toLower)
  if name = "nan" then return 0 / 0
  if name = "inf" ∨ name = "infinity" then return 1 / 0
  let (whole, rest) := leadingDigits cs
  let (fraction, rest) := match rest with
    | '.' :: rest => leadingDigits rest
    | rest => ([], rest)
  if whole.isEmpty ∧ fraction.isEmpty then none
  let e := (← exponent? rest) - fraction.length
  return Float.ofScientific (digitsValue (whole ++ fraction)) (e < 0) e.natAbs

/-- **The double that a text writes.** -/
def read? (s : String) : Option Float :=
  match s.toList with
  | '-' :: cs => (magnitude? cs).map fun x => -x
  | '+' :: cs => magnitude? cs
  | cs => magnitude? cs

end Stagewise.Decimal
