import Mathlib.Data.List.Basic
import Stagewise.Dependency.Uses
import Stagewise.Proofs.Source.Plain

/-!
# Parts of a declaration, and where they are

A walk over a tree comes by three kinds of parts that matter to others: names,
ascriptions, and invocations. Each is met in a **place**, which is known by the
locals in scope there and by the ascriptions around it. There are two ways to be
in an ascription. What is written in one is in it at once, unless it is in the
body of a closure; then it is in a body, and the ascription is only around that.

`Item.parts` lists the parts of a declaration in order, those within ascriptions
included. It says nothing about roles or dependencies, and `Item.uses_eq` reads
the uses of a declaration off it: a name is used where it is not bound, and in
which role is decided by what it is in at once.
-/

namespace Stagewise.Source

variable {μ : Type}

/-!
## Places

A place has the locals that are bound in it, and both whether an ascription is
around it and the role of what stands there. The two are not the same: a body
inside an ascription is inside it, and yet what stands in the body has the role
of a value.
-/

/-- **A place in a declaration.** -/
structure Place where
  /-- The locals in scope, by name. -/
  bound : List String := []
  /-- Whether there is an ascription around it, however far out. -/
  ascribed : Bool := false
  /-- What a name is used as that stands there: a type if the place is in an
  ascription at once, and a value if it is in a body. -/
  role : Role := .value

namespace Place

/-- The place of an ascription that is written somewhere. -/
def ascription (p : Place) : Place := { p with ascribed := true, role := .type }

/-- The place of a body that is written somewhere, with some more locals. -/
def body (p : Place) (locals : List String) : Place :=
  { p with bound := locals ++ p.bound, role := .value }

@[simp] theorem bound_ascription (p : Place) : p.ascription.bound = p.bound := rfl

@[simp] theorem bound_body (p : Place) (locals : List String) :
    (p.body locals).bound = locals ++ p.bound := rfl

@[simp] theorem role_ascription (p : Place) : p.ascription.role = .type := rfl

end Place

/-!
## Parts

The walk is written once, for all that is told by it. It lists the parts with
their places, and leaves it to others to pick what they need.
-/

/-- **A part of a tree.** -/
inductive Part (μ : Type) where
  /-- A name that is mentioned. -/
  | name (n : Name)
  /-- An ascription. -/
  | ascription (a : Expr μ)
  /-- Text to be expanded. -/
  | invocation (m : μ)

/-- The locals that a statement introduces, for the statements after it. -/
def Stmt.locals : Stmt μ → List String
  | .bind _ name _ _ => [name.text]
  | .assign _ _ _ _ | .branch _ _ _ _ | .eval _ => []

mutual

/-- **The parts of an expression in a place**, in order. -/
def Expr.parts (p : Place) : Expr μ → List (Place × Part μ)
  | .int _ _ | .float _ _ | .bool _ _ | .string _ _ | .typeLiteral _ _ => []
  | .var name => [(p, .name name)]
  | .call _ callee arguments => callee.parts p ++ partsAll p arguments
  | .tuple _ elements | .list _ elements => partsAll p elements
  | .unary _ _ operand => operand.parts p
  | .binary _ _ left right => left.parts p ++ right.parts p
  | .expand _ m => [(p, .invocation m)]
  | .closure _ params result body =>
    partsParams p params ++ (p, .ascription result) :: result.parts p.ascription
      ++ body.parts (p.body (params.map (·.name.text)))

/-- The parts of several expressions. -/
def partsAll (p : Place) : List (Expr μ) → List (Place × Part μ)
  | [] => []
  | e :: es => e.parts p ++ partsAll p es

/-- The parts of parameters: their ascriptions, and what is in those. -/
def partsParams (p : Place) : List (Param (Expr μ)) → List (Place × Part μ)
  | [] => []
  | q :: qs => (p, .ascription q.ascription) :: q.ascription.parts p.ascription ++ partsParams p qs

/-- The parts of a block. -/
def Block.parts (p : Place) : Block μ → List (Place × Part μ)
  | ⟨_, stmts⟩ => partsStmts p stmts

/-- The parts of a sequence of statements. -/
def partsStmts (p : Place) : List (Stmt μ) → List (Place × Part μ)
  | [] => []
  | stmt :: rest => stmt.parts (p.body []) ++ partsStmts (p.body stmt.locals) rest

/-- The parts of a statement. -/
def Stmt.parts (p : Place) : Stmt μ → List (Place × Part μ)
  | .bind _ _ a body => (p, .ascription a) :: a.parts p.ascription ++ body.parts p
  | .assign _ target _ body => (p, .name target) :: body.parts p
  | .branch _ condition yes no => condition.parts p ++ yes.parts p ++ no.parts p
  | .eval e => e.parts p

end

/-- **The parts of a declaration.** -/
def Item.parts : Item → List (Place × Part Invocation)
  | .function f =>
    partsParams {} f.params ++ ({}, .ascription f.result) :: f.result.parts (Place.ascription {})
      ++ f.body.parts (Place.body {} (f.params.map (·.name.text)))
  | .constant c =>
    ({}, .ascription c.ascription) :: c.ascription.parts (Place.ascription {}) ++ c.body.parts {}

/-- A part of several expressions is a part of one of them. -/
theorem mem_partsAll {p : Place} {es : List (Expr μ)} {q : Place × Part μ} :
    q ∈ partsAll p es ↔ ∃ e ∈ es, q ∈ e.parts p := by
  induction es with
  | nil => simp [partsAll]
  | cons e es ih => simp [partsAll, ih]

/-!
## Names

The names that refer to something outside are read off the parts. A name is free
where it is met, as the place has what is bound there.
-/

/-- The name that a part mentions, if it is not the name of a local. -/
def Part.free? : Place × Part μ → Option String
  | (p, .name n) => if n.text ∈ p.bound then none else some n.text
  | (_, .ascription _) | (_, .invocation _) => none

/-- **The names that are mentioned in parts**, those of locals excepted. -/
def freeNames (parts : List (Place × Part μ)) : List String := parts.filterMap Part.free?

@[simp] theorem freeNames_nil : freeNames ([] : List (Place × Part μ)) = [] := rfl

@[simp] theorem freeNames_append (parts parts' : List (Place × Part μ)) :
    freeNames (parts ++ parts') = freeNames parts ++ freeNames parts' := List.filterMap_append

@[simp] theorem freeNames_ascription (p : Place) (a : Expr μ) (parts : List (Place × Part μ)) :
    freeNames ((p, .ascription a) :: parts) = freeNames parts := rfl

/-- A name is free unless it is one of a local. -/
theorem freeNames_name (p : Place) (n : Name) (parts : List (Place × Part μ)) :
    freeNames ((p, .name n) :: parts)
      = (if n.text ∈ p.bound then [] else [n.text]) ++ freeNames parts := by
  unfold freeNames
  rw [List.filterMap_cons, Part.free?]
  by_cases h : n.text ∈ p.bound <;> simp [h]

/-- A free name is mentioned somewhere where it is not bound. -/
theorem mem_freeNames {parts : List (Place × Part μ)} {x : String} :
    x ∈ freeNames parts ↔ ∃ p n, (p, .name n) ∈ parts ∧ n.text ∉ p.bound ∧ n.text = x := by
  unfold freeNames
  rw [List.mem_filterMap]
  constructor
  · rintro ⟨⟨p, n | a | m⟩, hmem, hfree⟩
    · obtain ⟨hbound, htext⟩ := Option.ite_none_left_eq_some.mp hfree
      exact ⟨p, n, hmem, hbound, Option.some.inj htext⟩
    · cases hfree
    · cases hfree
  · rintro ⟨p, n, hmem, hbound, rfl⟩
    exact ⟨(p, .name n), hmem, if_neg hbound⟩

/-!
## Names that are free in a place

A tree is walked with the locals of its place, and what is free is what would be
free without them, less the locals. So the free names of a tree can be told
once, wherever it stands.
-/

/-- Locals of a place are no free names there. -/
theorem freeNames_singleton (p : Place) (n : Name) :
    freeNames [((p, .name n) : Place × Part μ)] =
      (freeNames [(({}, .name n) : Place × Part μ)]).filter (· ∉ p.bound) := by
  rw [freeNames_name, freeNames_name]
  by_cases h : n.text ∈ p.bound <;> simp [h]

/-- Names that are bound in a body, and names that are bound around it. -/
theorem filter_bound_body (names locals : List String) (p : Place) :
    names.filter (· ∉ (p.body locals).bound) =
      (names.filter (· ∉ (Place.body {} locals).bound)).filter (· ∉ p.bound) := by
  simp [List.filter_filter, Bool.and_comm]

/-- An ascription binds nothing. -/
theorem filter_bound_ascription (names : List String) (p : Place) :
    names.filter (· ∉ p.ascription.bound) =
      (names.filter (· ∉ (Place.ascription {}).bound)).filter (· ∉ p.bound) := by
  have hnone : names.filter (· ∉ (Place.ascription {}).bound) = names :=
    List.filter_eq_self.mpr (by simp)
  rewrite [hnone]
  rfl

mutual

/-- **What is free in a place** is free where nothing is bound, and is no local
of the place. -/
theorem Expr.freeNames_parts (p : Place) (e : Expr μ) :
    freeNames (e.parts p) = (freeNames (e.parts {})).filter (· ∉ p.bound) := by
  cases e with
  | int | float | bool | string | typeLiteral => rfl
  | var name => exact freeNames_singleton p name
  | call span callee arguments =>
    simp only [Expr.parts, freeNames_append, List.filter_append, callee.freeNames_parts p,
      freeNames_partsAll p arguments]
  | tuple span elements => exact freeNames_partsAll p elements
  | list span elements => exact freeNames_partsAll p elements
  | unary span op operand => exact operand.freeNames_parts p
  | binary span op left right =>
    simp only [Expr.parts, freeNames_append, List.filter_append, left.freeNames_parts p,
      right.freeNames_parts p]
  | expand span m => rfl
  | closure span params result body =>
    have hbody := body.freeNames_parts (p.body (params.map (·.name.text)))
    rw [filter_bound_body, ← body.freeNames_parts (Place.body {} _)] at hbody
    have hresult := result.freeNames_parts p.ascription
    rw [filter_bound_ascription, ← result.freeNames_parts (Place.ascription {})] at hresult
    simp only [Expr.parts, freeNames_append, freeNames_ascription, List.filter_append, hbody,
      hresult, freeNames_partsParams p params]
termination_by structural e

/-- Several expressions. -/
theorem freeNames_partsAll (p : Place) (es : List (Expr μ)) :
    freeNames (partsAll p es) = (freeNames (partsAll {} es)).filter (· ∉ p.bound) := by
  cases es with
  | nil => rfl
  | cons e es =>
    simp only [partsAll, freeNames_append, List.filter_append, e.freeNames_parts p,
      freeNames_partsAll p es]
termination_by structural es

/-- Parameters, whose ascriptions do not see each other. -/
theorem freeNames_partsParams (p : Place) (qs : List (Param (Expr μ))) :
    freeNames (partsParams p qs) = (freeNames (partsParams {} qs)).filter (· ∉ p.bound) := by
  match qs with
  | [] => rfl
  | ⟨name, a⟩ :: qs =>
    have ha := a.freeNames_parts p.ascription
    rw [filter_bound_ascription, ← a.freeNames_parts (Place.ascription {})] at ha
    simp only [partsParams, freeNames_append, freeNames_ascription, List.filter_append, ha,
      freeNames_partsParams p qs]
termination_by structural qs

/-- A block. -/
theorem Block.freeNames_parts (p : Place) (b : Block μ) :
    freeNames (b.parts p) = (freeNames (b.parts {})).filter (· ∉ p.bound) := by
  match b with
  | ⟨span, stmts⟩ => exact freeNames_partsStmts p stmts
termination_by structural b

/-- Statements, each with the locals of those before it. -/
theorem freeNames_partsStmts (p : Place) (stmts : List (Stmt μ)) :
    freeNames (partsStmts p stmts) = (freeNames (partsStmts {} stmts)).filter (· ∉ p.bound) := by
  match stmts with
  | [] => rfl
  | stmt :: rest =>
    have hstmt := stmt.freeNames_parts (p.body [])
    have hrest := freeNames_partsStmts (p.body stmt.locals) rest
    rw [filter_bound_body, ← freeNames_partsStmts (Place.body {} _) rest] at hrest
    rw [filter_bound_body, ← stmt.freeNames_parts (Place.body {} _)] at hstmt
    simp only [partsStmts, freeNames_append, List.filter_append, hstmt, hrest]
termination_by structural stmts

/-- A statement. -/
theorem Stmt.freeNames_parts (p : Place) (stmt : Stmt μ) :
    freeNames (stmt.parts p) = (freeNames (stmt.parts {})).filter (· ∉ p.bound) := by
  match stmt with
  | .bind span name a body =>
    have ha := a.freeNames_parts p.ascription
    rw [filter_bound_ascription, ← a.freeNames_parts (Place.ascription {})] at ha
    simp only [Stmt.parts, freeNames_append, freeNames_ascription, List.filter_append, ha,
      body.freeNames_parts p]
  | .assign span target op body =>
    rw [Stmt.parts, Stmt.parts, ← List.singleton_append, freeNames_append, freeNames_singleton,
      body.freeNames_parts p, ← List.filter_append, ← freeNames_append, List.singleton_append]
  | .branch span condition yes no =>
    simp only [Stmt.parts, freeNames_append, List.filter_append, condition.freeNames_parts p,
      yes.freeNames_parts p, no.freeNames_parts p]
  | .eval e => exact e.freeNames_parts p
termination_by structural stmt

end

/-!
## Uses

The dependencies of a declaration are collected by a walk of their own, which
carries the bound names and the role and lists the uses. It is the same walk, so
what it lists are the uses that the parts make.
-/

/-- The use that a part makes. An expander is used as a type wherever it is
invoked. -/
def Part.use? : Place × Part Invocation → Option Use
  | (p, .name n) => if n.text ∈ p.bound then none else some ⟨n, p.role⟩
  | (p, .invocation m) =>
    if m.expander.text ∈ p.bound then none else some ⟨m.expander, .type⟩
  | (_, .ascription _) => none

/-- A name is used unless it is bound. -/
theorem free_eq (bound : List String) (role : Role) (n : Name) :
    free bound role n = (if n.text ∈ bound then none else some (⟨n, role⟩ : Use)).toList := by
  unfold free
  by_cases h : n.text ∈ bound <;> simp [h]

/-- A name is used in the role of its place. -/
theorem filterMap_use?_name (p : Place) (n : Name) (parts : List (Place × Part Invocation)) :
    ((p, .name n) :: parts).filterMap Part.use?
      = free p.bound p.role n ++ parts.filterMap Part.use? := by
  rw [List.filterMap_cons, Part.use?, free_eq]
  by_cases h : n.text ∈ p.bound <;> simp [h]

/-- An expander is used as a type. -/
theorem filterMap_use?_invocation (p : Place) (m : Invocation) :
    [(p, Part.invocation m)].filterMap Part.use? = free p.bound .type m.expander := by
  rw [List.filterMap_cons, Part.use?, free_eq]
  by_cases h : m.expander.text ∈ p.bound <;> simp [h]

/-- An ascription itself is no use, but there may be some in it. -/
theorem filterMap_use?_ascription (p : Place) (a : Expr Invocation)
    (parts : List (Place × Part Invocation)) :
    ((p, .ascription a) :: parts).filterMap Part.use? = parts.filterMap Part.use? := rfl

mutual

/-- **The uses of an expression are those of its parts.** -/
theorem Expr.uses_eq (p : Place) (e : Expr Invocation) :
    e.uses p.bound p.role = (e.parts p).filterMap Part.use? := by
  cases e with
  | int | float | bool | string | typeLiteral => rfl
  | var name => simp [Expr.uses, Expr.parts, filterMap_use?_name]
  | call span callee arguments =>
    rw [Expr.uses, Expr.parts, List.filterMap_append, callee.uses_eq p, usesAll_eq p arguments]
  | tuple span elements => exact usesAll_eq p elements
  | list span elements => exact usesAll_eq p elements
  | unary span op operand => exact operand.uses_eq p
  | binary span op left right =>
    rw [Expr.uses, Expr.parts, List.filterMap_append, left.uses_eq p, right.uses_eq p]
  | expand span m => exact (filterMap_use?_invocation p m).symm
  | closure span params result body =>
    have hresult := result.uses_eq p.ascription
    have hbody := body.uses_eq (p.body (params.map (·.name.text)))
    rw [Place.bound_ascription, Place.role_ascription] at hresult
    rw [Place.bound_body] at hbody
    rw [Expr.uses, Expr.parts, List.filterMap_append, List.filterMap_append,
      filterMap_use?_ascription, hresult, hbody, usesParams_eq p params]
termination_by structural e

/-- The uses of several expressions. -/
theorem usesAll_eq (p : Place) (es : List (Expr Invocation)) :
    usesAll p.bound p.role es = (partsAll p es).filterMap Part.use? := by
  cases es with
  | nil => rfl
  | cons e es =>
    rw [usesAll, partsAll, List.filterMap_append, e.uses_eq p, usesAll_eq p es]
termination_by structural es

/-- The uses in the ascriptions of parameters. -/
theorem usesParams_eq (p : Place) (qs : List (Param (Expr Invocation))) :
    usesParams p.bound qs = (partsParams p qs).filterMap Part.use? := by
  match qs with
  | [] => rfl
  | ⟨name, a⟩ :: qs =>
    have ha := a.uses_eq p.ascription
    rw [Place.bound_ascription, Place.role_ascription] at ha
    rw [usesParams, partsParams, List.filterMap_append, filterMap_use?_ascription, ha,
      usesParams_eq p qs]
termination_by structural qs

/-- The uses of a block. -/
theorem Block.uses_eq (p : Place) (b : Block Invocation) :
    b.uses p.bound = (b.parts p).filterMap Part.use? := by
  match b with
  | ⟨span, stmts⟩ => exact usesStmts_eq p stmts
termination_by structural b

/-- The uses of statements. -/
theorem usesStmts_eq (p : Place) (stmts : List (Stmt Invocation)) :
    usesStmts p.bound stmts = (partsStmts p stmts).filterMap Part.use? := by
  match stmts with
  | [] => rfl
  | .bind span name a body :: rest =>
    have ha := a.uses_eq (p.body []).ascription
    have hbody := body.uses_eq (p.body [])
    have hrest := usesStmts_eq (p.body [name.text]) rest
    rw [Place.bound_ascription, Place.role_ascription] at ha
    rw [usesStmts, partsStmts, Stmt.parts, List.filterMap_append, List.filterMap_append,
      filterMap_use?_ascription, ← ha, ← hbody]
    rewrite [Stmt.locals, ← hrest]
    rfl
  | .assign span target op body :: rest =>
    have hbody := body.uses_eq (p.body [])
    have hrest := usesStmts_eq (p.body []) rest
    rw [usesStmts, partsStmts, Stmt.parts, List.filterMap_append, filterMap_use?_name, ← hbody]
    rewrite [Stmt.locals, ← hrest]
    rfl
  | .branch span condition yes no :: rest =>
    have hcondition := condition.uses_eq (p.body [])
    have hyes := yes.uses_eq (p.body [])
    have hno := no.uses_eq (p.body [])
    have hrest := usesStmts_eq (p.body []) rest
    rw [usesStmts, partsStmts, Stmt.parts, List.filterMap_append, List.filterMap_append,
      List.filterMap_append, ← hcondition, ← hyes, ← hno]
    rewrite [Stmt.locals, ← hrest]
    rfl
  | .eval e :: rest =>
    have he := e.uses_eq (p.body [])
    have hrest := usesStmts_eq (p.body []) rest
    rw [usesStmts, partsStmts, Stmt.parts, List.filterMap_append, ← he]
    rewrite [Stmt.locals, ← hrest]
    rfl
termination_by structural stmts

end

/-- **The uses of a declaration are those of its parts.** -/
theorem Item.uses_eq (item : Item) : item.uses = item.parts.filterMap Part.use? := by
  cases item with
  | function f =>
    have hparams := usesParams_eq {} f.params
    have hresult := f.result.uses_eq (Place.ascription {})
    have hbody := f.body.uses_eq (Place.body {} (f.params.map (·.name.text)))
    rw [Place.bound_body, List.append_nil] at hbody
    rewrite [Item.uses, Item.parts, List.filterMap_append, List.filterMap_append,
      filterMap_use?_ascription, ← hparams, ← hresult, ← hbody]
    rfl
  | constant c =>
    have hascription := c.ascription.uses_eq (Place.ascription {})
    have hbody := c.body.uses_eq {}
    rewrite [Item.uses, Item.parts, List.filterMap_append, filterMap_use?_ascription,
      ← hascription, ← hbody]
    rfl

/-!
## Parts with nothing to expand

Where nothing is left to expand the uses are names that are mentioned, and the
free names are the names of the uses.
-/

/-- **There is nothing to expand among parts.** -/
def PlainParts (parts : List (Place × Part μ)) : Prop := ∀ p m, (p, .invocation m) ∉ parts

theorem plainParts_nil : PlainParts ([] : List (Place × Part μ)) := fun _ _ => List.not_mem_nil

/-- There is nothing to expand in either. -/
@[simp] theorem plainParts_append {parts parts' : List (Place × Part μ)} :
    PlainParts (parts ++ parts') ↔ PlainParts parts ∧ PlainParts parts' := by
  simp only [PlainParts, List.mem_append, not_or, forall_and]

@[simp] theorem plainParts_name {p : Place} {n : Name} {parts : List (Place × Part μ)} :
    PlainParts ((p, .name n) :: parts) ↔ PlainParts parts := by
  simp [PlainParts]

@[simp] theorem plainParts_ascription {p : Place} {a : Expr μ} {parts : List (Place × Part μ)} :
    PlainParts ((p, .ascription a) :: parts) ↔ PlainParts parts := by
  simp [PlainParts]

/-- The names of the uses in parts with nothing to expand. -/
theorem map_filterMap_use? {parts : List (Place × Part Invocation)} (h : PlainParts parts) :
    (parts.filterMap Part.use?).map (·.name.text) = freeNames parts := by
  unfold freeNames
  rw [List.map_filterMap]
  refine List.filterMap_congr fun part hpart => ?_
  obtain ⟨p, n | a | m⟩ := part
  · rw [Part.use?, Part.free?]
    split <;> rfl
  · rfl
  · exact absurd hpart (h p m)

mutual

/-- **A plain tree has nothing to expand among its parts.** -/
theorem Expr.plainParts {e : Expr μ} (h : e.isPlain = true) (p : Place) :
    PlainParts (e.parts p) := by
  cases e with
  | int | float | bool | string | typeLiteral => exact plainParts_nil
  | var name => exact plainParts_name.mpr plainParts_nil
  | call span callee arguments =>
    rw [Expr.isPlain, Bool.and_eq_true] at h
    exact plainParts_append.mpr ⟨callee.plainParts h.1 p, plainParts_partsAll h.2 p⟩
  | tuple span elements => exact plainParts_partsAll h p
  | list span elements => exact plainParts_partsAll h p
  | unary span op operand => exact operand.plainParts h p
  | binary span op left right =>
    rw [Expr.isPlain, Bool.and_eq_true] at h
    exact plainParts_append.mpr ⟨left.plainParts h.1 p, right.plainParts h.2 p⟩
  | expand span m => cases h
  | closure span params result body =>
    rw [Expr.isPlain, Bool.and_eq_true, Bool.and_eq_true] at h
    rw [Expr.parts, plainParts_append, plainParts_append, plainParts_ascription]
    exact ⟨⟨plainParts_partsParams h.1.1 p, result.plainParts h.1.2 _⟩, body.plainParts h.2 _⟩
termination_by structural e

/-- Several expressions. -/
theorem plainParts_partsAll {es : List (Expr μ)} (h : allPlain es = true) (p : Place) :
    PlainParts (partsAll p es) := by
  cases es with
  | nil => exact plainParts_nil
  | cons e es =>
    rw [allPlain, Bool.and_eq_true] at h
    exact plainParts_append.mpr ⟨e.plainParts h.1 p, plainParts_partsAll h.2 p⟩
termination_by structural es

/-- Parameters. -/
theorem plainParts_partsParams {qs : List (Param (Expr μ))} (h : paramsPlain qs = true)
    (p : Place) : PlainParts (partsParams p qs) := by
  match qs with
  | [] => exact plainParts_nil
  | ⟨name, a⟩ :: qs =>
    rw [paramsPlain, Bool.and_eq_true] at h
    rw [partsParams, plainParts_append, plainParts_ascription]
    exact ⟨a.plainParts h.1 _, plainParts_partsParams h.2 p⟩
termination_by structural qs

/-- A block. -/
theorem Block.plainParts {b : Block μ} (h : b.isPlain = true) (p : Place) :
    PlainParts (b.parts p) := by
  match b with
  | ⟨span, stmts⟩ => exact plainParts_partsStmts h _
termination_by structural b

/-- Statements. -/
theorem plainParts_partsStmts {stmts : List (Stmt μ)} (h : stmtsPlain stmts = true) (p : Place) :
    PlainParts (partsStmts p stmts) := by
  match stmts with
  | [] => exact plainParts_nil
  | .bind span name a body :: rest =>
    rw [stmtsPlain, Bool.and_eq_true, Bool.and_eq_true] at h
    rw [partsStmts, Stmt.parts, plainParts_append, plainParts_append, plainParts_ascription]
    exact ⟨⟨a.plainParts h.1.1 _, body.plainParts h.1.2 _⟩, plainParts_partsStmts h.2 _⟩
  | .assign span target op body :: rest =>
    rw [stmtsPlain, Bool.and_eq_true] at h
    rw [partsStmts, Stmt.parts, plainParts_append, plainParts_name]
    exact ⟨body.plainParts h.1 _, plainParts_partsStmts h.2 _⟩
  | .branch span condition yes no :: rest =>
    rw [stmtsPlain, Bool.and_eq_true, Bool.and_eq_true, Bool.and_eq_true] at h
    rw [partsStmts, Stmt.parts, plainParts_append, plainParts_append, plainParts_append]
    exact ⟨⟨⟨condition.plainParts h.1.1.1 _, yes.plainParts h.1.1.2 _⟩, no.plainParts h.1.2 _⟩,
      plainParts_partsStmts h.2 _⟩
  | .eval e :: rest =>
    rw [stmtsPlain, Bool.and_eq_true] at h
    rw [partsStmts, Stmt.parts, plainParts_append]
    exact ⟨e.plainParts h.1 _, plainParts_partsStmts h.2 _⟩
termination_by structural stmts

end

/-- A plain declaration has nothing to expand among its parts. -/
theorem Item.plainParts {item : Item} (h : item.isPlain = true) : PlainParts item.parts := by
  cases item with
  | function f =>
    rw [Item.isPlain, Bool.and_eq_true, Bool.and_eq_true] at h
    rw [Item.parts, plainParts_append, plainParts_append, plainParts_ascription]
    exact ⟨⟨plainParts_partsParams h.1.1 _, f.result.plainParts h.1.2 _⟩, f.body.plainParts h.2 _⟩
  | constant c =>
    rw [Item.isPlain, Bool.and_eq_true] at h
    rw [Item.parts, plainParts_append, plainParts_ascription]
    exact ⟨c.ascription.plainParts h.1 _, c.body.plainParts h.2 _⟩

/-!
## Parts inside parts

Places are entered through ascriptions and bodies. Whatever is inside an
ascription has a place that says so, however many bodies there are in between.
-/

/-- **A place inside another**: ascriptions and bodies lead there. -/
inductive Place.Inside (p : Place) : Place → Prop where
  | here : Inside p p
  | ascription {q : Place} (h : Inside p q) : Inside p q.ascription
  | body {q : Place} (h : Inside p q) (locals : List String) : Inside p (q.body locals)

namespace Place.Inside

variable {p q r : Place}

/-- What is inside of what is inside is inside. -/
theorem trans (h : Inside p q) (h' : Inside q r) : Inside p r := by
  induction h' with
  | here => exact h
  | ascription _ ih => exact ih.ascription
  | body _ locals ih => exact ih.body locals

/-- What is inside an ascription stays inside. -/
theorem ascribed (h : Inside p q) (hp : p.ascribed = true) : q.ascribed = true := by
  induction h with
  | here => exact hp
  | ascription _ ih => rfl
  | body _ locals ih => exact ih

/-- What is used as a type is inside an ascription. -/
theorem ascribed_of_role (h : Inside p q) (hp : p.role = .type → p.ascribed = true)
    (hq : q.role = .type) : q.ascribed = true := by
  induction h with
  | here => exact hp hq
  | ascription _ ih => rfl
  | body _ locals ih => cases hq

end Place.Inside

/-- **Parts are nested**: they are inside a place, and with an ascription come
its parts. -/
structure Nested (p : Place) (parts : List (Place × Part μ)) : Prop where
  inside : ∀ q part, (q, part) ∈ parts → p.Inside q
  ascriptions : ∀ q a, (q, .ascription a) ∈ parts → ∀ part ∈ a.parts q.ascription, part ∈ parts

namespace Nested

variable {p q : Place} {parts parts' : List (Place × Part μ)}

theorem nil : Nested p ([] : List (Place × Part μ)) where
  inside _ _ h := absurd h List.not_mem_nil
  ascriptions _ _ h := absurd h List.not_mem_nil

/-- Parts that are nested further in are nested further out. -/
theorem of_inside (hq : p.Inside q) (h : Nested q parts) : Nested p parts where
  inside r part hr := hq.trans (h.inside r part hr)
  ascriptions := h.ascriptions

/-- Parts side by side. -/
theorem append (h : Nested p parts) (h' : Nested p parts') : Nested p (parts ++ parts') where
  inside q part hq := (List.mem_append.mp hq).elim (h.inside q part) (h'.inside q part)
  ascriptions q a hq part hpart := by
    obtain hq | hq := List.mem_append.mp hq
    · exact List.mem_append_left _ (h.ascriptions q a hq part hpart)
    · exact List.mem_append_right _ (h'.ascriptions q a hq part hpart)

/-- An ascription comes with its parts. -/
theorem ascription {a : Expr μ} (h : Nested p.ascription (a.parts p.ascription)) :
    Nested p ((p, .ascription a) :: a.parts p.ascription) where
  inside q part hq := by
    obtain hq | hq := List.mem_cons.mp hq
    · cases hq
      exact .here
    · exact (Place.Inside.ascription .here).trans (h.inside q part hq)
  ascriptions q b hq part hpart := by
    obtain hq | hq := List.mem_cons.mp hq
    · cases hq
      exact List.mem_cons_of_mem _ hpart
    · exact List.mem_cons_of_mem _ (h.ascriptions q b hq part hpart)

/-- A part that is no ascription. -/
theorem singleton {part : Part μ} (h : ∀ a, part ≠ .ascription a) : Nested p [(p, part)] where
  inside q part' hq := by
    cases List.mem_singleton.mp hq
    exact .here
  ascriptions q a hq := by
    obtain ⟨-, ha⟩ := Prod.mk.inj (List.mem_singleton.mp hq)
    exact absurd ha.symm (h a)

end Nested

mutual

/-- **The parts of a tree are nested** in its place. -/
theorem Expr.nested (p : Place) (e : Expr μ) : Nested p (e.parts p) := by
  cases e with
  | int | float | bool | string | typeLiteral => exact .nil
  | var name => exact .singleton fun a ha => by cases ha
  | call span callee arguments => exact (callee.nested p).append (nested_partsAll p arguments)
  | tuple span elements => exact nested_partsAll p elements
  | list span elements => exact nested_partsAll p elements
  | unary span op operand => exact operand.nested p
  | binary span op left right => exact (left.nested p).append (right.nested p)
  | expand span m => exact .singleton fun a ha => by cases ha
  | closure span params result body =>
    refine .append (.append (nested_partsParams p params) (.ascription (result.nested _))) ?_
    exact .of_inside (.body .here _) (body.nested _)
termination_by structural e

/-- Several expressions. -/
theorem nested_partsAll (p : Place) (es : List (Expr μ)) : Nested p (partsAll p es) := by
  cases es with
  | nil => exact .nil
  | cons e es => exact (e.nested p).append (nested_partsAll p es)
termination_by structural es

/-- Parameters. -/
theorem nested_partsParams (p : Place) (qs : List (Param (Expr μ))) :
    Nested p (partsParams p qs) := by
  match qs with
  | [] => exact .nil
  | ⟨name, a⟩ :: qs => exact (Nested.ascription (a.nested _)).append (nested_partsParams p qs)
termination_by structural qs

/-- A block. -/
theorem Block.nested (p : Place) (b : Block μ) : Nested p (b.parts p) := by
  match b with
  | ⟨span, stmts⟩ => exact nested_partsStmts p stmts
termination_by structural b

/-- Statements. -/
theorem nested_partsStmts (p : Place) (stmts : List (Stmt μ)) : Nested p (partsStmts p stmts) := by
  match stmts with
  | [] => exact .nil
  | stmt :: rest =>
    exact .append (.of_inside (.body .here _) (stmt.nested _))
      (.of_inside (.body .here _) (nested_partsStmts _ rest))
termination_by structural stmts

/-- A statement. -/
theorem Stmt.nested (p : Place) (stmt : Stmt μ) : Nested p (stmt.parts p) := by
  match stmt with
  | .bind span name a body => exact (Nested.ascription (a.nested _)).append (body.nested p)
  | .assign span target op body =>
    exact (Nested.singleton fun a ha => by cases ha).append (body.nested p)
  | .branch span condition yes no =>
    exact ((condition.nested p).append (yes.nested p)).append (no.nested p)
  | .eval e => exact e.nested p
termination_by structural stmt

end

/-- The parts of a declaration are nested. -/
theorem Item.nested (item : Item) : Nested {} item.parts := by
  cases item with
  | function f =>
    refine .append (.append (nested_partsParams {} f.params) (.ascription (f.result.nested _))) ?_
    exact .of_inside (.body .here _) (f.body.nested _)
  | constant c => exact (Nested.ascription (c.ascription.nested _)).append (c.body.nested {})

end Stagewise.Source
