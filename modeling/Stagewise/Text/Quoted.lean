import Stagewise.Text.Invisible

/-!
# Quoted text

A string is written between double quotes with some of its characters escaped.
Which characters, and how, is a `Convention`: most escaped characters are
written as a backslash and one letter, the rest as a backslash and a code. Two
conventions are in use, `Convention.data` for exchanged data and for string
literals of emitted programs, and `Convention.listing` for values shown in a
message.

Everything a convention does not escape is written as it is. In data that is all
text outside ASCII, in a listing all that can be seen.
-/

namespace Stagewise.Quoted

/-- The lower-case digits of a number in base sixteen. -/
def hex (n : Nat) : List Char := Nat.toDigits 16 n

/-- **An escaping convention**: what follows the backslash, for the characters
that take one. -/
structure Convention where
  /-- The letter that stands for a character after a backslash. -/
  letter : Char → Option Char
  /-- The code that stands for a character after a backslash, when it has no
  letter. -/
  code : Char → Option (List Char)

/-- One character, escaped if the convention asks for it. -/
def Convention.encodeChar (k : Convention) (c : Char) : List Char :=
  match k.letter c, k.code c with
  | some l, _ => ['\\', l]
  | none, some code => '\\' :: code
  | none, none => [c]

/-- The characters of a string between double quotes. -/
def Convention.quote (k : Convention) (s : String) : String :=
  String.ofList ('"' :: s.toList.flatMap k.encodeChar ++ ['"'])

/-- **Text in exchanged data**: quote, backslash and the five control characters
with a letter of their own, and a four-digit code for every other control
character. -/
def Convention.data : Convention where
  letter c :=
    if c = '"' then some '"' else if c = '\\' then some '\\'
    else if c = '\n' then some 'n' else if c = '\r' then some 'r' else if c = '\t' then some 't'
    else if c.toNat = 8 then some 'b' else if c.toNat = 12 then some 'f' else none
  code c :=
    if c.toNat < 16 then some (['u', '0', '0', '0'] ++ hex c.toNat)
    else if c.toNat < 32 then some (['u', '0', '0'] ++ hex c.toNat)
    else none

/-- **Text in a listing of values**: like data, with a letter for the null
character, none for backspace and form feed, and a code in braces for every
other character that cannot be seen. -/
def Convention.listing : Convention where
  letter c :=
    if c = '"' then some '"' else if c = '\\' then some '\\'
    else if c = '\n' then some 'n' else if c = '\r' then some 'r' else if c = '\t' then some 't'
    else if c.toNat = 0 then some '0' else none
  code c :=
    if isInvisible c then some (['u', '\x7b'] ++ hex c.toNat ++ ['\x7d']) else none

end Stagewise.Quoted
