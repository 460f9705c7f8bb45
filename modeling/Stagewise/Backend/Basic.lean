import Stagewise.Failure.Fatal

/-!
# Backends

Programs run elsewhere. The compiler talks to a backend by three kinds of
request: it declares a name, defines it, or has an expression evaluated with all
that was defined before. The code is sent piece by piece, and a later piece may
refer to earlier ones.

A `Backend` is a machine with states `β` that answers such requests. It is free
to refuse any of them and to change its state in any way, and nothing about
compilation assumes more. `Backend.refusing` refuses requests that mention some
text, before the backend hears of them.
-/

namespace Stagewise

/-- The kinds of request. -/
inductive Request where
  | declare
  | define
  | evaluate
  deriving DecidableEq, Repr

/-- What a kind of request is called. -/
def Request.text : Request → String
  | .declare => "declare"
  | .define => "define"
  | .evaluate => "evaluate"

/-- **A machine that answers requests**, with states `β`. -/
structure Backend (β : Type) where
  /-- Take note of a declaration. -/
  declare : String → β → Except Backend.Fault Unit × β
  /-- Take in a definition. -/
  define : String → β → Except Backend.Fault Unit × β
  /-- Evaluate an expression; the answer is tagged data. -/
  evaluate : String → β → Except Backend.Fault Data × β
  /-- All that was declared and defined. -/
  program : β → String

namespace Backend

/-- Whether a text occurs in another. -/
def occursIn (part : List Char) : List Char → Bool
  | [] => part.isEmpty
  | c :: cs => part.isPrefixOf (c :: cs) || occursIn part cs

/-- Whether a text mentions a part, if there is one to mention. -/
def mentions (part : Option String) (text : String) : Bool :=
  part.any fun p => occursIn p.toList text.toList

/-- **A backend that refuses** declarations and definitions that mention certain
text. -/
def refusing {β : Type} (declared defined : Option String) (b : Backend β) : Backend β where
  declare text s :=
    if mentions declared text then (.error (.rejected Request.declare.text "refused"), s)
    else b.declare text s
  define text s :=
    if mentions defined text then (.error (.rejected Request.define.text "refused"), s)
    else b.define text s
  evaluate := b.evaluate
  program := b.program

end Backend

end Stagewise
