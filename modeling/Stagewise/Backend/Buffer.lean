import Stagewise.Backend.Basic
import Stagewise.Text.Quoted

/-!
# Keeping the program in memory

The simplest backend writes down what it is sent. It takes every declaration and
definition, and leaves evaluation to an evaluator, if it has one; a request to
evaluate is written down either way.

`Script` is such an evaluator. It answers by rules, of which the first that fits
the text is used, and a rule may answer differently each time.
-/

namespace Stagewise

/-! ## The buffer -/

/-- A piece of program. -/
structure Buffer.Entry where
  /-- Whether it defines, or only declares. -/
  isDefinition : Bool
  /-- Its text. -/
  text : String
  deriving DecidableEq, Repr

/-- **A program in memory**, with an evaluator in state `ε`. -/
structure Buffer (ε : Type) where
  /-- The pieces of program, in order. -/
  entries : List Buffer.Entry := []
  /-- The texts that were to be evaluated, in order. -/
  evaluations : List String := []
  /-- The state of the evaluator. -/
  evaluator : ε

/-- A machine that evaluates, with states `ε`. -/
abbrev Evaluator (ε : Type) := String → ε → Except Backend.Fault Data × ε

namespace Buffer

variable {ε : Type}

/-- The texts of the declarations. -/
def declarations (b : Buffer ε) : List String :=
  (b.entries.filter (!·.isDefinition)).map (·.text)

/-- The texts of the definitions. -/
def definitions (b : Buffer ε) : List String := (b.entries.filter (·.isDefinition)).map (·.text)

/-- The whole program, a line break between pieces. -/
def program (b : Buffer ε) : String := String.intercalate "\n" (b.entries.map (·.text))

/-- The buffer with one more piece of program. -/
def push (b : Buffer ε) (isDefinition : Bool) (text : String) : Buffer ε :=
  { b with entries := b.entries ++ [⟨isDefinition, text⟩] }

/-- Evaluate, if there is an evaluator. -/
def evaluate (e : Option (Evaluator ε)) (text : String) (b : Buffer ε) :
    Except Backend.Fault Data × Buffer ε :=
  let b := { b with evaluations := b.evaluations ++ [text] }
  match e with
  | none => (.error (.unsupported Request.evaluate.text), b)
  | some e =>
    let (answer, state) := e text b.evaluator
    (answer, { b with evaluator := state })

/-- **The backend that keeps the program in memory.** -/
def backend (e : Option (Evaluator ε)) : Backend (Buffer ε) where
  declare text b := (.ok (), b.push false text)
  define text b := (.ok (), b.push true text)
  evaluate := evaluate e
  program := program

/-- The contents of a buffer, for inspection. -/
def listing (b : Buffer ε) (hasEvaluator : Bool) : String :=
  let quote := Quoted.Convention.listing.quote
  let entry (e : Entry) :=
    "Entry \x7b kind: " ++ (if e.isDefinition then "Definition" else "Declaration") ++ ", text: "
      ++ quote e.text ++ " \x7d"
  "ProgramBuffer \x7b entries: [" ++ String.intercalate ", " (b.entries.map entry)
    ++ "], evaluations: [" ++ String.intercalate ", " (b.evaluations.map quote)
    ++ "], has_evaluator: " ++ (if hasEvaluator then "true" else "false") ++ " \x7d"

end Buffer

/-! ## The scripted evaluator -/

namespace Script

/-- How a rule answers. -/
inductive Answer where
  /-- With these one after the other, and with the last of them from then on. -/
  | values (first : Data) (later : List Data)
  /-- With a failure. -/
  | fault (f : Backend.Fault)

/-- **A rule**: which texts it fits, and how it answers. -/
structure Rule where
  /-- A text it fits has to mention this. -/
  mentions : Option String
  /-- A text it fits has to be this. -/
  equals : Option String
  /-- How it answers. -/
  answer : Answer

/-- Whether a rule fits a text. -/
def Rule.fits (r : Rule) (text : String) : Bool :=
  (r.mentions.isNone || Backend.mentions r.mentions text) && r.equals.all (· = text)

/-- The next answer of a rule, and the rule after that. -/
def Rule.next (r : Rule) : Except Backend.Fault Data × Rule :=
  match r.answer with
  | .fault f => (.error f, r)
  | .values first [] => (.ok first, r)
  | .values first (second :: later) => (.ok first, { r with answer := .values second later })

/-- **Answer by the first rule that fits.** -/
def evaluator : Evaluator (List Rule)
  | _, [] => (.error (.rejected Request.evaluate.text "no rule"), [])
  | text, r :: rules =>
    if r.fits text then
      let (answer, r) := r.next
      (answer, r :: rules)
    else
      let (answer, rules) := evaluator text rules
      (answer, r :: rules)

end Script

end Stagewise
