/-!
# The fewest digits that read back

A finite double is a dyadic number `mantissa · 2 ^ exponent`, and the reals that
round to it form an interval around it. Among the decimals in that interval the
one to print has the fewest digits, and of those with equally few the nearest.

`shortest` finds it by exact integer arithmetic. It walks the grids `10 ^ p`
from coarse to fine and stops at the first that has a point in the interval: a
point of a coarser grid has fewer digits, and if any point of a grid lies in the
interval then so does one of the two neighbours of the number itself. When both
neighbours qualify and are equally near, the caller's `Tie` decides.
-/

namespace Stagewise.Decimal

/-- **A positive dyadic number**, as a double stores it. -/
structure Dyadic where
  /-- The integer significand. -/
  mantissa : Nat
  /-- The power of two it is scaled by. -/
  exponent : Int
  /-- Whether the next double below is only half as far as the next above, as it
  is at the powers of two. -/
  narrowBelow : Bool
  deriving DecidableEq, Repr

/-- The magnitude of a finite double. -/
def Dyadic.ofFloat (x : Float) : Dyadic :=
  let bits := x.toBits.toNat
  let fraction := bits % Nat.pow 2 52
  let power : Nat := bits / Nat.pow 2 52 % Nat.pow 2 11
  if power = 0 then ⟨fraction, -1074, false⟩
  else ⟨Nat.pow 2 52 + fraction, (power : Int) - 1075, decide (fraction = 0 ∧ 1 < power)⟩

/-- Whether a double is below zero, counting the negative zero. -/
def isNegative (x : Float) : Bool := Nat.pow 2 63 ≤ x.toBits.toNat

/-- Which of two equally near neighbours to take. -/
inductive Tie where
  /-- The larger. -/
  | up
  /-- The one whose last digit is even. -/
  | even
  deriving DecidableEq, Repr

/-- **A positive decimal**: `digits · 10 ^ exponent`. -/
structure Digits where
  /-- The significant digits, read as one number. -/
  digits : Nat
  /-- The power of ten of the last digit. -/
  exponent : Int
  deriving DecidableEq, Repr

/-- `base ^ e` for a positive exponent, and `1` otherwise. -/
def positivePower (base : Nat) (e : Int) : Nat := base.pow e.toNat

namespace Dyadic

/-- The number in quarters of its last binary place, so that the ends of its
rounding interval are whole numbers too. -/
def quarters (b : Dyadic) : Nat := 4 * b.mantissa

/-- The lower end of the rounding interval, in quarters. -/
def low (b : Dyadic) : Nat := b.quarters - if b.narrowBelow then 1 else 2

/-- The upper end of the rounding interval, in quarters. -/
def high (b : Dyadic) : Nat := b.quarters + 2

/-- A number of quarters and a multiple of `10 ^ p` over one denominator: the
factor for the quarters. -/
def quarterFactor (b : Dyadic) (p : Int) : Nat :=
  positivePower 2 (b.exponent - 2) * positivePower 10 (-p)

/-- A number of quarters and a multiple of `10 ^ p` over one denominator: the
factor for the multiple. -/
def gridFactor (b : Dyadic) (p : Int) : Nat :=
  positivePower 2 (2 - b.exponent) * positivePower 10 p

/-- Whether `d · 10 ^ p` rounds to the number. The ends of the interval count
exactly when the significand is even. -/
def admits (b : Dyadic) (p : Int) (d : Nat) : Bool :=
  let point := d * b.gridFactor p
  let low := b.low * b.quarterFactor p
  let high := b.high * b.quarterFactor p
  if b.mantissa % 2 = 0 then low ≤ point && point ≤ high else low < point && point < high

/-- The multiple of `10 ^ p` to print, if one rounds to the number. -/
def onGrid (b : Dyadic) (tie : Tie) (p : Int) : Option Nat :=
  let number := b.quarters * b.quarterFactor p
  let step := b.gridFactor p
  let below := number / step
  let above := below + 1
  match b.admits p below, b.admits p above with
  | false, false => none
  | true, false => some below
  | false, true => some above
  | true, true =>
    let twice := 2 * (number - below * step)
    if twice < step then some below
    else if step < twice then some above
    else match tie with
      | .up => some above
      | .even => some (if below % 2 = 0 then below else above)

/-- The first of `steps` grids, from `10 ^ p` down, with a point to print. -/
def search (b : Dyadic) (tie : Tie) : Nat → Int → Digits
  | 0, p => ⟨0, p⟩
  | steps + 1, p =>
    match b.onGrid tie p with
    | some d => ⟨d, p⟩
    | none => search b tie steps (p - 1)

/-- The number of decimal places of the whole part. -/
def wholePlaces (b : Dyadic) : Nat :=
  (Nat.toDigits 10 (b.mantissa * positivePower 2 b.exponent / positivePower 2 (-b.exponent))).length

/-- **The decimal to print for a positive double.** On the grid of its last
binary place the number is itself a point, so the search ends there at the
latest. -/
def shortest (b : Dyadic) (tie : Tie) : Digits :=
  b.search tie (b.wholePlaces + 1100) b.wholePlaces

end Dyadic

end Stagewise.Decimal
