import Stagewise.Dependency.Uses
import Stagewise.Stage.Schedule

/-!
# Dependencies between declarations

The uses of all declarations, each filed under the declaration that makes it,
say what has to be evaluated before what. `Dependencies.stageGraph` turns them
into a stage graph: a declaration comes after what it uses as a type, and
requires what it uses as a value.

Functions are the exception. The body of a function needs no more of another
function than its type, and so one function does not require another; this is
what lets functions call each other in a circle. But the type of the other
function may itself depend on the first being evaluated. Then there is no order,
and the requirement is kept for the schedule to find that out.
-/

namespace Stagewise

/-- **Uses of names**, by the declaration that makes them. -/
structure Dependencies where
  /-- The uses of each declaration, in order. -/
  uses : List (String × List Use) := []

namespace Dependencies

/-- The uses of all declarations. -/
def collect (ds : Declarations) : Dependencies := ⟨ds.entries.map fun d => (d.name, d.uses)⟩

/-- One more use in a table of uses. -/
def addTo (declaration : String) (u : Use) : List (String × List Use) → List (String × List Use)
  | [] => [(declaration, [u])]
  | (d, us) :: rest =>
    if d = declaration then (d, us ++ [u]) :: rest else (d, us) :: addTo declaration u rest

/-- One more use. -/
def add (deps : Dependencies) (declaration : String) (u : Use) : Dependencies :=
  ⟨addTo declaration u deps.uses⟩

/-- The names that a declaration uses in a role. -/
def names (deps : Dependencies) (role : Role) (declaration : String) : List Name :=
  (((deps.uses.lookup declaration).getD []).filter (·.role = role)).map (·.name)

/-- The declarations that a declaration uses in a role. -/
def targets (deps : Dependencies) (ds : Declarations) (role : Role) (declaration : String) :
    List String :=
  ((deps.names role declaration).map (·.text)).filter ds.declares

/-- One step of dependency, along with whether a use as a type lies on the
way. -/
def step (deps : Dependencies) (ds : Declarations) : String × Bool → List (String × Bool)
  | (d, throughType) =>
    (deps.targets ds .type d).map (·, true) ++ (deps.targets ds .value d).map (·, throughType)

/-- **The declarations to evaluate before one can be checked**: those it depends
on along a path with a use as a type on it. -/
def evaluatedBefore (deps : Dependencies) (ds : Declarations) (declaration : String) :
    List String :=
  let fresh := ds.names.flatMap fun d => [(d, false), (d, true)]
  ((reach (deps.step ds) fresh (deps.step ds (declaration, false))).filter (·.2)).map (·.1)

/-- What to evaluate before each function of the module. -/
def precedence (deps : Dependencies) (ds : Declarations) : List (String × List String) :=
  (ds.entries.filter Declaration.isFunction).map fun d => (d.name, deps.evaluatedBefore ds d.name)

/-- Whether a use as a value leaves a requirement, where `before` has what to
evaluate before each function. -/
def isRequired (before : List (String × List String)) (user : Declaration) (used : String) : Bool :=
  match before.lookup used with
  | some names => !user.isFunction || user.name ∈ names
  | none => true

/-- The edges of a declaration, each once. -/
def edges (deps : Dependencies) (ds : Declarations) (before : List (String × List String))
    (d : Declaration) : List (Stage.Constraint × String) :=
  ((deps.targets ds .type d.name).eraseDups.map (.after, ·))
    ++ ((deps.targets ds .value d.name).eraseDups.filter (isRequired before d)).map (.requires, ·)

/-- The node that evaluates a declaration. -/
def node (d : Declaration) : Stage.Node :=
  { label := d.name, declaration := some d.name, precomputed := d.isBuiltin }

/-- Add an edge between declarations. -/
def connect (ds : Declarations) (g : Stage.Graph) (user : String) :
    Stage.Constraint × String → Stage.Graph
  | (c, used) =>
    match ds.index? user, ds.index? used with
    | some i, some j => g.connect c i j
    | _, _ => g

/-- **The stage graph of a module**: node `i` evaluates declaration `i`. Names
that are not declared leave no edge. -/
def stageGraph (deps : Dependencies) (ds : Declarations) : Stage.Graph :=
  let nodes := ds.entries.foldl (fun g d => g.addNode (node d)) .empty
  let before := deps.precedence ds
  ds.entries.foldl (fun g d => (deps.edges ds before d).foldl (connect ds · d.name) g) nodes

end Dependencies

end Stagewise
