import Stagewise.Failure.Diagnostic

/-!
# Scopes and captures

A name is looked up in a chain of scopes, from the innermost outwards, and the
outermost falls back to the top-level names. A lookup that passes through a
scope leaves a **capture** there: the name, and what it turned out to refer to.
A closure reads off the captures of its own scope which outer variables it uses.

The chain is a nonempty list, its root kept apart, and a lookup rebuilds it with
the new captures in place. Only `Scopes.get` records captures; `Scopes.resolve`
gives the same answer and leaves the chain alone.
-/

namespace Stagewise

/-- What may be done with a local. -/
inductive Local.Kind where
  /-- A parameter, which keeps its value. -/
  | parameter
  /-- A variable, which may be assigned to. -/
  | assignable
  deriving DecidableEq, Repr

/-- **A parameter or local variable.** -/
structure Local where
  /-- Its name, where it was introduced. -/
  name : Name
  /-- What may be done with it. -/
  kind : Local.Kind
  /-- Its type. -/
  ty : Ty
  deriving DecidableEq, Repr

/-- **What a name refers to**: a top-level declaration, known by its name, or a
local. -/
inductive Binding where
  | global (name : String)
  | lexical (l : Local)
  deriving DecidableEq, Repr

/-- Whether a name refers to a local. -/
def Binding.isLexical : Binding → Bool
  | .global _ => false
  | .lexical _ => true

/-- A name introduced in a scope. -/
structure Scope.Entry where
  /-- The name, where it was introduced. -/
  name : Name
  /-- What it refers to. -/
  binding : Binding
  deriving DecidableEq, Repr

/-- A name that was looked up through a scope. -/
structure Capture where
  /-- The name. -/
  name : String
  /-- What it referred to. -/
  binding : Binding
  deriving DecidableEq, Repr

/-- **One scope**: what it introduces, and what was looked up through it. -/
structure Scope where
  /-- The names it introduces. -/
  entries : List Scope.Entry := []
  /-- What was looked up through it, in order. -/
  captures : List Capture := []
  deriving DecidableEq, Repr

namespace Scope

/-- The entry of a name. -/
def find? (s : Scope) (name : String) : Option Entry := s.entries.find? (·.name.text = name)

/-- The binding of a name introduced in this very scope. -/
def own? (s : Scope) (name : String) : Option Binding := (s.find? name).map (·.binding)

/-- **Introduce a name.** A scope introduces a name once; what enclosing scopes
introduce does not matter. -/
def add (s : Scope) (name : Name) (b : Binding) : Except Diagnostic Scope :=
  match s.find? name.text with
  | some e => .error (.duplicate name.text e.name.span name.span)
  | none => .ok { s with entries := s.entries ++ [⟨name, b⟩] }

/-- **Record a capture**; with `dedup`, only the first of a name. -/
def record (s : Scope) (dedup : Bool) (name : String) (b : Binding) : Scope :=
  if dedup && s.captures.any (·.name = name) then s
  else { s with captures := s.captures ++ [⟨name, b⟩] }

/-- The captures of locals. Top-level declarations are in reach everywhere and
need no capturing. -/
def lexicalCaptures (s : Scope) : List Capture := s.captures.filter (·.binding.isLexical)

end Scope

/-- **A chain of scopes.** -/
structure Scopes where
  /-- The names the root falls back to. -/
  topLevel : List String
  /-- Whether a scope keeps one capture per name. -/
  dedup : Bool
  /-- The scopes inside the root, innermost first. -/
  inner : List Scope := []
  /-- The outermost scope. -/
  root : Scope := {}
  deriving DecidableEq, Repr

namespace Scopes

/-- The innermost scope. -/
def current (s : Scopes) : Scope := s.inner.headD s.root

/-- The chain with another innermost scope. -/
def setCurrent (s : Scopes) (scope : Scope) : Scopes :=
  match s.inner with
  | [] => { s with root := scope }
  | _ :: outer => { s with inner := scope :: outer }

/-- A chain of one empty scope over the same top-level names. -/
def isolated (s : Scopes) : Scopes := { topLevel := s.topLevel, dedup := s.dedup }

/-- Open a scope inside the innermost. -/
def push (s : Scopes) : Scopes := { s with inner := {} :: s.inner }

/-- Leave the innermost scope. The root is never left. -/
def pop (s : Scopes) : Scopes := { s with inner := s.inner.tail }

/-- Introduce a name in the innermost scope. -/
def add (s : Scopes) (name : Name) (b : Binding) : Except Diagnostic Scopes :=
  s.setCurrent <$> s.current.add name b

/-- What the root and the top-level names say about a name. -/
def rootBinding (s : Scopes) (name : String) : Option Binding :=
  match s.root.own? name with
  | some b => some b
  | none => if name ∈ s.topLevel then some (.global name) else none

/-- What a list of scopes says about a name, and `outside` if it says
nothing. -/
def resolveIn (outside : Option Binding) (name : String) : List Scope → Option Binding
  | [] => outside
  | scope :: outer =>
    match scope.own? name with
    | some b => some b
    | none => resolveIn outside name outer

/-- **What a name refers to**, leaving no trace. -/
def resolve (s : Scopes) (name : String) : Option Binding :=
  resolveIn (s.rootBinding name) name s.inner

/-- The scopes after a successful lookup of a name: every scope that does not
introduce it, up to the one that does, has captured it. -/
def captureIn (dedup : Bool) (name : String) (b : Binding) : List Scope → List Scope
  | [] => []
  | scope :: outer =>
    match scope.own? name with
    | some _ => scope :: outer
    | none => scope.record dedup name b :: captureIn dedup name b outer

/-- **What a name refers to**, recording a capture in every scope the lookup
passes through. -/
def get (s : Scopes) (name : String) : Option (Binding × Scopes) :=
  match s.resolve name with
  | some b => some (b, { s with inner := captureIn s.dedup name b s.inner })
  | none => none

/-- Record a capture in the innermost scope. -/
def record (s : Scopes) (name : String) (b : Binding) : Scopes :=
  s.setCurrent (s.current.record s.dedup name b)

end Scopes

end Stagewise
