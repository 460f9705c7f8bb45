import Stagewise.Failure.Diagnostic

/-!
# Fatal failures

Some failures stop the compilation at once. The declarations may have no order
in which they can be evaluated (`Cycle`), the backend may fail
(`Backend.Fault`), or the compilation may find itself in a state it should never
be in (`Internal`).

A compilation that does not succeed therefore ends in one of two ways,
`Failure`: with the diagnostics gathered on the way, or with the one fatal
failure that stopped it.
-/

namespace Stagewise

/-- **Declarations without an order of evaluation.** -/
inductive Cycle where
  /-- Each of these has to be evaluated before the next. -/
  | after (names : List String)
  /-- Each of these has to be visible to the next. -/
  | requires (names : List String)
  /-- One requires others that can only be evaluated after it. -/
  | mixed (name : String) (missing : List String)
  deriving DecidableEq, Repr

/-- The wording of a cycle. -/
def Cycle.message : Cycle → String
  | .after names => "cyclic dependency between declarations: " ++ String.intercalate ", " names
  | .requires names => "circular definition between declarations: " ++ String.intercalate ", " names
  | .mixed name missing =>
    "'" ++ name ++ "' requires " ++ String.intercalate ", " missing
      ++ " which can only be evaluated after it"

/-- **A state the compilation should never be in.** -/
inductive Internal where
  /-- A declaration was analysed and has no type. -/
  | missingType (name : String)
  /-- A declaration was defined a second time. -/
  | alreadyDefined (name : String)
  /-- Not every declaration was either defined or refused. -/
  | unsettled (settled declarations : Nat)
  /-- Something was to be evaluated with a declaration that is not defined
  yet. -/
  | evaluatedTooEarly (name : String)
  /-- A declaration was referred to while its type was being computed. -/
  | reentrant (name : String)
  /-- Anything else. -/
  | other (message : String)
  deriving DecidableEq, Repr

/-- The wording of an internal failure. -/
def Internal.message (i : Internal) : String :=
  "internal error: " ++ match i with
    | .missingType name => "type of '" ++ name ++ "' is missing after analysis"
    | .alreadyDefined name => "'" ++ name ++ "' was defined twice"
    | .unsettled settled declarations =>
      toString settled ++ " of " ++ toString declarations ++ " declarations were defined"
    | .evaluatedTooEarly name => "'" ++ name ++ "' was evaluated before its definition"
    | .reentrant name => "'" ++ name ++ "' was referenced while its type was being computed"
    | .other message => message

/-- **A failure of the backend.** -/
inductive Backend.Fault where
  /-- The backend cannot be talked to. -/
  | io (message : String)
  /-- The backend did not answer in time. -/
  | timeout (millis : Nat)
  /-- The backend refused a request of this kind. -/
  | rejected (request message : String)
  /-- The backend answered something that is no answer. -/
  | protocol (message : String)
  /-- The backend answered with data that stands for no value. -/
  | decode (cause : DecodeError)
  /-- The backend cannot do what it was asked to. -/
  | unsupported (operation : String)
  deriving DecidableEq, Repr

/-- The wording of a failure of the backend. -/
def Backend.Fault.message : Backend.Fault → String
  | .io message => "backend i/o failed: " ++ message
  | .timeout millis => "backend did not answer within " ++ toString millis ++ " ms"
  | .rejected request message => "backend rejected " ++ request ++ ": " ++ message
  | .protocol message => "backend protocol error: " ++ message
  | .decode cause => "backend returned an undecodable value: " ++ cause.message
  | .unsupported operation => "backend does not support " ++ operation

/-- **What stops a compilation at once.** -/
inductive Fatal where
  | cycle (c : Cycle)
  | internal (i : Internal)
  | backend (f : Backend.Fault)
  deriving DecidableEq, Repr

/-- The wording of a fatal failure. -/
def Fatal.message : Fatal → String
  | .cycle c => c.message
  | .internal i => i.message
  | .backend f => f.message

/-- Whether declarations had no order of evaluation. -/
def Fatal.isCycle : Fatal → Bool
  | .cycle _ => true
  | _ => false

/-- **How a compilation fails.** -/
inductive Failure where
  /-- With everything found wrong with the module, in the order it was found. -/
  | diagnostics (ds : List Diagnostic)
  /-- With what stopped it. -/
  | fatal (f : Fatal)
  deriving DecidableEq, Repr

namespace Failure

/-- The diagnostics of a failure. -/
def found : Failure → List Diagnostic
  | .diagnostics ds => ds
  | .fatal _ => []

/-- The wording of a failure. -/
def message : Failure → String
  | .diagnostics ds =>
    "compilation failed with " ++ toString ds.length ++ " error(s): "
      ++ String.intercalate "; " (ds.map Diagnostic.message)
  | .fatal f => f.message

end Failure

end Stagewise
