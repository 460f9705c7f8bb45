import Stagewise.Data.Reader

/-!
# Reading a record

A record is an object of which some fields are asked for. Those are read like
any data, and `Data.readRecord?` returns them as often as they are written. The
other fields are **skipped**: they have to be written properly, but nobody makes
sense of them. Half of a pair of codes in a string is no obstacle then, and
neither is a number beyond all doubles or a container at any depth.

Skipping keeps a list of the containers it is in, innermost first, in place of
nested calls.
-/

namespace Stagewise.Data

namespace Reader

/-! ## Skipping -/

/-- The text after a string, from after its opening quote. -/
def skipText : List Char → Option (List Char)
  | '"' :: cs => some cs
  | '\\' :: 'u' :: a :: b :: c :: d :: cs =>
    if (hexQuad a b c d).isSome then skipText cs else none
  | '\\' :: c :: cs => if (unescape c).isSome then skipText cs else none
  | c :: cs => if c = '\\' ∨ c.toNat < 32 then none else skipText cs
  | [] => none

/-- The text after a numeral. -/
def skipNumeral (cs : List Char) : Option (List Char) := (numeral cs).map (·.2)

/-- The text after a tree that is no container. -/
def skipPlain : List Char → Option (List Char)
  | '"' :: cs => skipText cs
  | 'n' :: 'u' :: 'l' :: 'l' :: rest => some rest
  | 't' :: 'r' :: 'u' :: 'e' :: rest => some rest
  | 'f' :: 'a' :: 'l' :: 's' :: 'e' :: rest => some rest
  | '-' :: cs => skipNumeral cs
  | cs => skipNumeral cs

/-- A container that is open. -/
inductive Container where
  | list
  | record
  deriving DecidableEq, Repr

/-- The character that closes a container. -/
def Container.closing : Container → Char
  | .list => ']'
  | .record => '\x7d'

/-- The text after the key of an item, which only an item of a record has. -/
def Container.skipKey (c : Container) (cs : List Char) : Option (List Char) :=
  match c, skipBlank cs with
  | .list, cs => some cs
  | .record, '"' :: cs =>
    match (skipText cs).map skipBlank with
    | some (':' :: cs) => some cs
    | _ => none
  | .record, _ => none

/-- What comes next in a text that is being skipped. -/
inductive Place where
  /-- A tree. -/
  | tree
  /-- The end of the innermost container, or its first item. -/
  | first
  /-- The end of the innermost container, or a comma and another item. -/
  | next
  deriving DecidableEq, Repr

/-- **The text after a tree**, within the containers `inside`. The first
argument bounds the number of steps. -/
def skip : Nat → Place → List Container → List Char → Option (List Char)
  | 0, _, _, _ => none
  | bound + 1, .tree, inside, cs =>
    match skipBlank cs with
    | '[' :: cs => skip bound .first (.list :: inside) cs
    | '\x7b' :: cs => skip bound .first (.record :: inside) cs
    | cs =>
      match skipPlain cs with
      | some rest => skip bound .next inside rest
      | none => none
  | _ + 1, _, [], cs => some cs
  | bound + 1, place, c :: inside, cs =>
    match skipBlank cs with
    | [] => none
    | d :: rest =>
      if d = c.closing then skip bound .next inside rest
      else
        let item := if place = .first then some (d :: rest) else if d = ',' then some rest else none
        match item >>= c.skipKey with
        | some rest => skip bound .tree (c :: inside) rest
        | none => none

/-! ## Records -/

/-- The value of a field, if the field is wanted, and the text after it. -/
def wantedValue (wanted : Bool) (bound depth : Nat) (cs : List Char) :
    Option (Option Data × List Char) :=
  if wanted then (tree bound depth cs).map fun (d, rest) => (some d, rest)
  else (skip bound .tree [] cs).map (none, ·)

/-- The wanted fields of an object, from one of its fields on. -/
def wantedMembers (wanted : List String) : Nat → Nat → List Char → Option (Fields × List Char)
  | 0, _, _ => none
  | bound + 1, depth, cs =>
    match skipBlank cs with
    | '"' :: cs => do
      let (key, rest) ← text [] cs
      match skipBlank rest with
      | ':' :: cs =>
        let (value, rest) ← wantedValue (key ∈ wanted) bound depth cs
        let field := (value.map (key, ·)).toList
        match skipBlank rest with
        | ',' :: cs =>
          let (fs, rest) ← wantedMembers wanted bound depth cs
          return (field ++ fs, rest)
        | '\x7d' :: rest => return (field, rest)
        | _ => none
      | _ => none
    | _ => none

/-- The wanted fields of an object, after its opening brace. -/
def wantedFields (wanted : List String) (bound depth : Nat) (cs : List Char) :
    Option (Fields × List Char) :=
  match skipBlank cs with
  | '\x7d' :: rest => some ([], rest)
  | cs => wantedMembers wanted bound depth cs

end Reader

/-- **The wanted fields of the object that a text writes**, in order and with
repetitions. -/
def readRecord? (wanted : List String) (s : String) : Option Fields :=
  let cs := s.toList
  match Reader.skipBlank cs with
  | '\x7b' :: rest =>
    Reader.wantedFields wanted (Reader.callBound cs) (Reader.depthLimit - 1) rest
      >>= Reader.complete
  | _ => none

end Stagewise.Data
