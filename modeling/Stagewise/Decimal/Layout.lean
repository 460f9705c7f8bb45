import Stagewise.Decimal.Shortest

/-!
# Writing a double

`Dyadic.shortest` settles the digits of a double; where the point goes, and when
an exponent is written instead of zeros, is a matter of `Layout`. Two layouts
are in use: `Layout.program` for emitted programs and for values shown in
messages, and `Layout.data` for exchanged data. They differ in how small a
number is still written out, in the sign of a positive exponent and in the
choice between two equally near decimals.

A number written out in full always shows a digit after the point, so that `3.0`
reads back as a double.
-/

namespace Stagewise.Decimal

/-- **How a finite double is laid out.** -/
structure Layout where
  /-- The least power of ten of the first digit that is still written out. -/
  leastWritten : Int
  /-- The greatest power of ten of the first digit that is still written out. -/
  greatestWritten : Int
  /-- What stands before an exponent that is not negative. -/
  plus : String
  /-- The choice between two equally near decimals. -/
  tie : Tie

/-- **Numbers of programs and listings**: written out from `0.0001` to below
`1e16`. -/
def Layout.program : Layout := ⟨-4, 15, "", .up⟩

/-- **Numbers of exchanged data**: written out from `0.00001` to below `1e16`,
and a sign on every exponent. -/
def Layout.data : Layout := ⟨-5, 15, "+", .even⟩

/-- Digits written out, with at least one on either side of the point. -/
def Digits.written (d : Digits) : String :=
  let text := Nat.toDigits 10 d.digits
  if 0 ≤ d.exponent then
    String.ofList (text ++ List.replicate d.exponent.toNat '0') ++ ".0"
  else
    let places := (-d.exponent).toNat
    let padded := List.replicate (places + 1 - text.length) '0' ++ text
    let whole := padded.length - places
    String.ofList (padded.take whole) ++ "." ++ String.ofList (padded.drop whole)

/-- Digits with the point after the first of them, and an exponent. -/
def Digits.scientific (d : Digits) (plus : String) (power : Int) : String :=
  let text := Nat.toDigits 10 d.digits
  let fraction := text.drop 1
  String.ofList (text.take 1)
    ++ (if fraction.isEmpty then "" else "." ++ String.ofList fraction)
    ++ "e" ++ (if 0 ≤ power then plus else "") ++ toString power

/-- A positive finite double. -/
def Layout.positive (l : Layout) (x : Float) : String :=
  let d := (Dyadic.ofFloat x).shortest l.tie
  let power : Int := (Nat.toDigits 10 d.digits).length - 1 + d.exponent
  if l.leastWritten ≤ power ∧ power ≤ l.greatestWritten then d.written
  else d.scientific l.plus power

/-- **The text of a double**: sign, then magnitude. -/
def Layout.text (l : Layout) (x : Float) : String :=
  if x.isNaN then "NaN"
  else
    let sign := if isNegative x then "-" else ""
    if x.isInf then sign ++ "inf"
    else if (Dyadic.ofFloat x).mantissa = 0 then sign ++ "0.0"
    else sign ++ l.positive x

end Stagewise.Decimal
