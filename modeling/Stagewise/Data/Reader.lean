import Stagewise.Data.Basic

/-!
# Reading data

`Data.read?` reads one tree from a line of text and refuses everything else:
what follows the tree must be blank, and containers nest to a bounded depth.

A number without point and exponent is an integer if it fits into sixty-four
bits, signed or unsigned; the negative zero does not count as one. All other
numbers are doubles. The digits are gathered into an unsigned sixty-four bit
significand, digits that no longer fit only move the exponent, and the
significand is then scaled by one power of ten. A number too large for a double
is refused.

The reader is a recursive descent over the characters. Its first argument bounds
the number of nested calls; a call never starts without a character to consume,
so the length of the text is bound enough.
-/

namespace Stagewise.Data.Reader

/-- The characters that may stand between tokens. -/
def isBlank (c : Char) : Bool := c = ' ' || c = '\n' || c = '\t' || c = '\r'

/-- The text from its first character that is not blank. -/
def skipBlank (cs : List Char) : List Char := cs.dropWhile isBlank

/-! ## Strings -/

/-- The value of a digit in base sixteen, in either case. -/
def hexValue (c : Char) : Option Nat :=
  if '0' ≤ c ∧ c ≤ '9' then some (c.toNat - 48)
  else if 'a' ≤ c ∧ c ≤ 'f' then some (c.toNat - 87)
  else if 'A' ≤ c ∧ c ≤ 'F' then some (c.toNat - 55)
  else none

/-- The number written by four digits in base sixteen. -/
def hexQuad (a b c d : Char) : Option Nat := do
  return ((← hexValue a) * 16 + (← hexValue b)) * 256 + (← hexValue c) * 16 + (← hexValue d)

/-- The character that a letter after a backslash stands for. -/
def unescape (c : Char) : Option Char :=
  if c = '"' ∨ c = '\\' ∨ c = '/' then some c
  else if c = 'n' then some '\n' else if c = 'r' then some '\r' else if c = 't' then some '\t'
  else if c = 'b' then some (Char.ofNat 8) else if c = 'f' then some (Char.ofNat 12)
  else none

/-- Whether a code is the first or the second half of a pair. -/
def isHighHalf (n : Nat) : Bool := 0xD800 ≤ n && n < 0xDC00

/-- Whether a code is the second half of a pair. -/
def isLowHalf (n : Nat) : Bool := 0xDC00 ≤ n && n < 0xE000

/-- The rest of a string after its opening quote; `seen` holds its characters so
far, the latest first. -/
def text (seen : List Char) : List Char → Option (String × List Char)
  | '"' :: cs => some (String.ofList seen.reverse, cs)
  | '\\' :: 'u' :: a :: b :: c :: d :: cs => do
    let n ← hexQuad a b c d
    if isHighHalf n then
      match cs with
      | '\\' :: 'u' :: a :: b :: c :: d :: cs =>
        let m ← hexQuad a b c d
        if isLowHalf m then
          text (Char.ofNat (0x10000 + (n - 0xD800) * 0x400 + (m - 0xDC00)) :: seen) cs
        else none
      | _ => none
    else if isLowHalf n then none
    else text (Char.ofNat n :: seen) cs
  | '\\' :: c :: cs => do text ((← unescape c) :: seen) cs
  | c :: cs => if c = '\\' ∨ c.toNat < 32 then none else text (c :: seen) cs
  | [] => none

/-! ## Numbers -/

/-- The greatest significand. -/
def greatest : Nat := Nat.pow 2 64 - 1

/-- A significand and the power of ten it is scaled by, while digits are
gathered. -/
structure Gathered where
  /-- The digits that fit. -/
  significand : Nat
  /-- The power of ten. -/
  exponent : Int
  /-- Whether a digit did not fit. -/
  full : Bool

/-- A digit before the point: one that does not fit makes the number ten times
larger. -/
def Gathered.whole (g : Gathered) (c : Char) : Gathered :=
  let next := g.significand * 10 + (c.toNat - 48)
  if g.full ∨ greatest < next then ⟨g.significand, g.exponent + 1, true⟩
  else ⟨next, g.exponent, false⟩

/-- A digit after the point: one that does not fit is dropped with all that
follow. -/
def Gathered.fraction (g : Gathered) (c : Char) : Gathered :=
  let next := g.significand * 10 + (c.toNat - 48)
  if g.full ∨ greatest < next then { g with full := true }
  else ⟨next, g.exponent - 1, false⟩

/-- A power of ten as a double. -/
def tenTo (n : Nat) : Float := Float.ofScientific 1 false n

/-- A double divided by `10 ^ n`, in steps that are doubles themselves. -/
def scaleDown (x : Float) (n : Nat) : Float :=
  if n ≤ 308 then x / tenTo n
  else if x == 0 then x
  else scaleDown (x / tenTo 308) (n - 308)
termination_by n

/-- **A gathered number as a double**, unless it is too large. -/
def Gathered.toFloat? (g : Gathered) : Option Float :=
  let x := Float.ofNat g.significand
  if g.exponent < 0 then some (scaleDown x (-g.exponent).toNat)
  else if 308 < g.exponent then if x == 0 then some x else none
  else
    let scaled := x * tenTo g.exponent.toNat
    if scaled.isInf then none else some scaled

/-- Digits at the front of a text, and the rest. -/
def digits (cs : List Char) : List Char × List Char :=
  (cs.takeWhile Char.isDigit, cs.dropWhile Char.isDigit)

/-- The digits of a fraction, if a point comes next; at least one must follow
it. -/
def fractionPart : List Char → Option (Option (List Char) × List Char)
  | '.' :: cs =>
    let (ds, rest) := digits cs
    if ds.isEmpty then none else some (some ds, rest)
  | cs => some (none, cs)

/-- An exponent, if its mark comes next: whether it is negative, and its
digits. -/
def exponentPart : List Char → Option (Option (Bool × List Char) × List Char)
  | c :: cs =>
    if c = 'e' ∨ c = 'E' then
      let (negative, cs) := match cs with
        | '+' :: cs => (false, cs)
        | '-' :: cs => (true, cs)
        | cs => (false, cs)
      let (ds, rest) := digits cs
      if ds.isEmpty then none else some (some (negative, ds), rest)
    else some (none, c :: cs)
  | [] => some (none, [])

/-- The number written by decimal digits. -/
def decimalValue (ds : List Char) : Nat := ds.foldl (fun n c => n * 10 + (c.toNat - 48)) 0

/-- A double from its gathered digits and its exponent. -/
def double (g : Gathered) : Option (Bool × List Char) → Option Float
  | none => g.toFloat?
  | some (negative, ds) =>
    let e := decimalValue ds
    if Nat.pow 2 31 ≤ e then if g.significand = 0 ∨ negative then some 0 else none
    else { g with exponent := if negative then g.exponent - e else g.exponent + e }.toFloat?

/-- A double with a sign in front. -/
def signed (negative : Bool) (x : Float) : Option Number :=
  let x := if negative then -x else x
  if h : x.isFinite = true then some (.double x h) else none

/-- The digits of a number as written. -/
structure Numeral where
  /-- Those before the point. -/
  whole : List Char
  /-- Those after it, if there is a point. -/
  fraction : Option (List Char)
  /-- The exponent, if there is one: whether it is negative, and its digits. -/
  exponent : Option (Bool × List Char)

/-- The numeral at the front of a text, after its sign. Only a zero may start
with a zero. -/
def numeral (cs : List Char) : Option (Numeral × List Char) := do
  let (whole, rest) := digits cs
  if whole.isEmpty ∨ (whole.head? = some '0' ∧ 1 < whole.length) then none
  let (fraction, rest) ← fractionPart rest
  let (exponent, rest) ← exponentPart rest
  return (⟨whole, fraction, exponent⟩, rest)

/-- The number that a numeral writes. -/
def Numeral.value (n : Numeral) (negative : Bool) : Option Number := do
  let g := n.whole.foldl Gathered.whole ⟨0, 0, false⟩
  if n.fraction.isNone ∧ n.exponent.isNone ∧ ¬g.full then
    if ¬negative then return .int g.significand
    if 0 < g.significand ∧ g.significand ≤ Nat.pow 2 63 then return .int (-g.significand)
  let g := (n.fraction.getD []).foldl Gathered.fraction { g with full := false }
  signed negative (← double g n.exponent)

/-- **A number**, after its sign. -/
def number (negative : Bool) (cs : List Char) : Option (Number × List Char) := do
  let (n, rest) ← numeral cs
  return (← n.value negative, rest)

/-! ## Trees -/

/-- How many containers may be open at once, with one to spare. -/
def depthLimit : Nat := 128

mutual

/-- One tree at the front of a text, with room for `depth` more open
containers. -/
def tree : Nat → Nat → List Char → Option (Data × List Char)
  | 0, _, _ => none
  | bound + 1, depth, cs =>
    match skipBlank cs with
    | '"' :: cs => do
      let (s, rest) ← text [] cs
      return (.string s, rest)
    | '[' :: cs =>
      if depth ≤ 1 then none
      else match skipBlank cs with
        | ']' :: rest => some (.array [], rest)
        | cs => do
          let (items, rest) ← items bound (depth - 1) cs
          return (.array items, rest)
    | '\x7b' :: cs =>
      if depth ≤ 1 then none
      else do
        let (fields, rest) ← fields bound (depth - 1) cs
        return (Data.ofFields fields, rest)
    | 'n' :: 'u' :: 'l' :: 'l' :: rest => some (.null, rest)
    | 't' :: 'r' :: 'u' :: 'e' :: rest => some (.bool true, rest)
    | 'f' :: 'a' :: 'l' :: 's' :: 'e' :: rest => some (.bool false, rest)
    | '-' :: cs => do
      let (n, rest) ← number true cs
      return (.number n, rest)
    | cs => do
      let (n, rest) ← number false cs
      return (.number n, rest)

/-- The items of a list and its closing bracket. -/
def items : Nat → Nat → List Char → Option (List Data × List Char)
  | 0, _, _ => none
  | bound + 1, depth, cs => do
    let (d, rest) ← tree bound depth cs
    match skipBlank rest with
    | ',' :: cs =>
      let (ds, rest) ← items bound depth cs
      return (d :: ds, rest)
    | ']' :: rest => return ([d], rest)
    | _ => none

/-- The fields of an object as written, after its opening brace, and the closing
one. -/
def fields : Nat → Nat → List Char → Option (Fields × List Char)
  | 0, _, _ => none
  | bound + 1, depth, cs =>
    match skipBlank cs with
    | '\x7d' :: rest => some ([], rest)
    | cs => members bound depth cs

/-- The fields of an object from one of them on. -/
def members : Nat → Nat → List Char → Option (Fields × List Char)
  | 0, _, _ => none
  | bound + 1, depth, cs =>
    match skipBlank cs with
    | '"' :: cs => do
      let (key, rest) ← text [] cs
      match skipBlank rest with
      | ':' :: cs =>
        let (d, rest) ← tree bound depth cs
        match skipBlank rest with
        | ',' :: cs =>
          let (fs, rest) ← members bound depth cs
          return ((key, d) :: fs, rest)
        | '\x7d' :: rest => return ([(key, d)], rest)
        | _ => none
      | _ => none
    | _ => none

end

/-- A bound on the nested calls that reading a text makes. -/
def callBound (cs : List Char) : Nat := 2 * cs.length + 4

/-- What was read, if nothing but blanks is left. -/
def complete {α : Type} : α × List Char → Option α
  | (a, rest) => if (skipBlank rest).isEmpty then some a else none

end Reader

/-- The tree that a text writes, with fewer than `depth` containers open at
once. -/
def readWithin? (depth : Nat) (s : String) : Option Data :=
  let cs := s.toList
  Reader.tree (Reader.callBound cs) depth cs >>= Reader.complete

/-- **The tree that a text writes**, and nothing if it writes none. -/
def read? (s : String) : Option Data := readWithin? Reader.depthLimit s

end Stagewise.Data
