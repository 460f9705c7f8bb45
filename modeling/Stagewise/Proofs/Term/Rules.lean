import Stagewise.Proofs.Term.Typing

/-!
# Typing rules

A checked tree has a type on every node and a binding on every name. The rules
below say what they have to be, and they say it without a checker: there is no
hint in them, no order in which things are looked at, and no state. A judgement
is about a tree, what the names around it refer to (`Env`), and the types `Γ` of
top-level names.

A name is a local or a declaration, and has the type of what it refers to. Two
rules are for what can be read in two ways. A call takes one argument for each
element of a tuple, or a single one that is no tuple. A tuple of types is a
tuple, or it is the type that is the tuple of them. A statement may introduce a
local, and those after it are judged with that local in scope
(`Term.Stmt.scope`); an assignment needs a local that may be assigned to.

`Term.WellTyped` is what the rules leave when names are not looked up, and is
all that folding needs (`Term.Typed.wellTyped`). Like it, the rules ask of `Γ`
only what they need.
-/

namespace Stagewise

/-!
## Operators

The checker computes the type of an operation from those of the operands. The
rules are the relation that it computes.
-/

/-- **What an operator before one operand takes and gives.** -/
inductive UnaryOp.Rule : UnaryOp → Ty → Ty → Prop where
  | negate {t : Ty} (number : t = .int ∨ t = .float) : Rule .negate t t
  | not : Rule .not .bool .bool

/-- **What an operator between two operands takes and gives.** Both have the
same type. -/
inductive BinaryOp.Rule : BinaryOp → Ty → Ty → Ty → Prop where
  | arithmetic {op : BinaryOp} {t : Ty} (op_mem : op ∈ [.add, .sub, .mul, .div])
    (number : t = .int ∨ t = .float) : Rule op t t t
  | ordering {op : BinaryOp} {t : Ty} (op_mem : op ∈ [.less, .greater, .lessEqual, .greaterEqual])
    (number : t = .int ∨ t = .float) : Rule op t t .bool
  | equality {op : BinaryOp} {t : Ty} (op_mem : op ∈ [.equal, .notEqual]) : Rule op t t .bool
  | connective {op : BinaryOp} (op_mem : op ∈ [.and, .or]) : Rule op .bool .bool .bool

theorem Ty.isNumeric_iff {t : Ty} : t.isNumeric = true ↔ t = .int ∨ t = .float := by
  cases t <;> simp [Ty.isNumeric]

theorem Ty.parameters_of_ne_tuple {t : Ty} (h : ∀ ts, t ≠ .tuple ts) : t.parameters = [t] := by
  cases t with
  | tuple ts => exact absurd rfl (h ts)
  | _ => rfl

namespace Analysis

theorem unaryTy_eq_some_iff {op : UnaryOp} {t u : Ty} : unaryTy op t = some u ↔ op.Rule t u := by
  cases op with
  | negate =>
    rw [unaryTy, Option.ite_none_right_eq_some, Ty.isNumeric_iff, Option.some.injEq]
    constructor
    · rintro ⟨number, rfl⟩
      exact .negate number
    · rintro ⟨number⟩
      exact ⟨number, rfl⟩
  | not =>
    rw [unaryTy, Option.ite_none_right_eq_some, Option.some.injEq]
    constructor
    · rintro ⟨rfl, rfl⟩
      exact .not
    · rintro ⟨⟩
      exact ⟨rfl, rfl⟩

theorem binaryTy_eq_some_iff {op : BinaryOp} {t t' u : Ty} :
    binaryTy op t t' = some u ↔ op.Rule t t' u := by
  unfold binaryTy
  constructor
  · intro h
    rw [Option.ite_none_left_eq_some, ne_eq, not_not] at h
    obtain ⟨rfl, h⟩ := h
    cases hgroup : op.group <;> simp only [hgroup] at h
    case arithmetic =>
      rw [Option.ite_none_right_eq_some, Ty.isNumeric_iff, Option.some.injEq] at h
      obtain ⟨number, rfl⟩ := h
      exact .arithmetic (by cases op <;> simp_all [BinaryOp.group]) number
    case ordering =>
      rw [Option.ite_none_right_eq_some, Ty.isNumeric_iff, Option.some.injEq] at h
      obtain ⟨number, rfl⟩ := h
      exact .ordering (by cases op <;> simp_all [BinaryOp.group]) number
    case connective =>
      rw [Option.ite_none_right_eq_some, Option.some.injEq] at h
      obtain ⟨rfl, rfl⟩ := h
      exact .connective (by cases op <;> simp_all [BinaryOp.group])
    case equality =>
      obtain rfl := Option.some.inj h
      exact .equality (by cases op <;> simp_all [BinaryOp.group])
  · intro h
    cases h with
    | arithmetic op_mem number | ordering op_mem number =>
      have number := Ty.isNumeric_iff.mpr number
      cases op <;> simp_all [BinaryOp.group]
    | equality op_mem => cases op <;> simp_all [BinaryOp.group]
    | connective op_mem => cases op <;> simp_all [BinaryOp.group]

end Analysis

/-!
## Environments

An environment tells what names refer to and not how this is found out. Locals
are added to it one by one, and none is ever taken out: a scope is left by going
back to the environment around it.
-/

/-- **What names refer to** in some place. -/
abbrev Env := String → Option Binding

/-- The environment with one more local, which hides what its name referred
to. -/
def Env.bind (E : Env) (l : Local) : Env :=
  fun x => if x = l.name.text then some (.lexical l) else E x

/-- Parameters as locals. -/
def Local.ofParams (params : List (Name × Ty)) : List Local :=
  params.map fun (name, ty) => ⟨name, .parameter, ty⟩

namespace Term

/-- The environment after a statement. -/
def Stmt.scope (E : Env) : Stmt → Env
  | .bind _ name ty _ => E.bind ⟨name, .assignable, ty⟩
  | .assign _ _ _ _ | .branch _ _ _ _ _ | .eval _ => E

/-!
## The rules

The rules are in one family, for terms, blocks, statements and sequences. In a
sequence the environment is handed on from each statement to the next.
-/

mutual

/-- **A term obeys the typing rules**, where `Γ` tells the types of top-level
names. -/
inductive Typed (Γ : String → Ty → Prop) : Env → Term → Prop where
  | int {E : Env} {span : Span} {n : Int64} : Typed Γ E ⟨span, .int, .int n⟩
  | float {E : Env} {span : Span} {x : Float} : Typed Γ E ⟨span, .float, .float x⟩
  | bool {E : Env} {span : Span} {b : Bool} : Typed Γ E ⟨span, .bool, .bool b⟩
  | string {E : Env} {span : Span} {s : String} : Typed Γ E ⟨span, .string, .string s⟩
  | value {E : Env} {span : Span} {v : Value} {ty : Ty} (hasType : v.HasType ty) :
    Typed Γ E ⟨span, ty, .value v⟩
  | lexical {E : Env} {span : Span} {name : String} {l : Local}
    (refers : E name = some (.lexical l)) : Typed Γ E ⟨span, l.ty, .var name (.lexical l)⟩
  | global {E : Env} {span : Span} {name x : String} {ty : Ty}
    (refers : E name = some (.global x)) (published : Γ x ty) :
    Typed Γ E ⟨span, ty, .var name (.global x)⟩
  | call {E : Env} {span : Span} {callee : Term} {arguments : List Term} {ty : Ty}
    (typed : callee.Typed Γ E) (typedAll : ∀ e ∈ arguments, e.Typed Γ E)
    (takes : callee.ty = .fn (.tuple (arguments.map (·.ty))) ty) :
    Typed Γ E ⟨span, ty, .call callee arguments⟩
  | callSingle {E : Env} {span : Span} {callee argument : Term} {ty : Ty}
    (typed : callee.Typed Γ E) (typedArgument : argument.Typed Γ E)
    (takes : callee.ty = .fn argument.ty ty) (single : ∀ ts, argument.ty ≠ .tuple ts) :
    Typed Γ E ⟨span, ty, .call callee [argument]⟩
  | tuple {E : Env} {span : Span} {elements : List Term} (typedAll : ∀ e ∈ elements, e.Typed Γ E) :
    Typed Γ E ⟨span, .tuple (elements.map (·.ty)), .tuple elements⟩
  | tupleType {E : Env} {span : Span} {elements : List Term}
    (typedAll : ∀ e ∈ elements, e.Typed Γ E) (types : ∀ e ∈ elements, e.ty = .type) :
    Typed Γ E ⟨span, .type, .tuple elements⟩
  | list {E : Env} {span : Span} {elements : List Term} {ty : Ty}
    (typedAll : ∀ e ∈ elements, e.Typed Γ E) (types : ∀ e ∈ elements, e.ty = ty) :
    Typed Γ E ⟨span, .list ty, .list elements⟩
  | unary {E : Env} {span : Span} {op : UnaryOp} {operand : Term} {ty : Ty}
    (typed : operand.Typed Γ E) (rule : op.Rule operand.ty ty) :
    Typed Γ E ⟨span, ty, .unary op operand⟩
  | binary {E : Env} {span : Span} {op : BinaryOp} {left right : Term} {ty : Ty}
    (typedLeft : left.Typed Γ E) (typedRight : right.Typed Γ E)
    (rule : op.Rule left.ty right.ty ty) : Typed Γ E ⟨span, ty, .binary op left right⟩
  | closure {E : Env} {span : Span} {params : List Local} {captures : List String} {body : Block}
    (kinds : ∀ l ∈ params, l.kind = .parameter) (typed : body.Typed Γ (params.foldl Env.bind E)) :
    Typed Γ E ⟨span, .functionOf (params.map (·.ty)) body.ty,
      .closure (params.map fun l => (l.name.text, l.ty)) captures body⟩

/-- **A block obeys the typing rules.** It has the type of what its last
statement leaves behind. -/
inductive Block.Typed (Γ : String → Ty → Prop) : Env → Block → Prop where
  | mk {E : Env} {span : Span} {stmts : List Stmt} (typed : StmtsTyped Γ E stmts) :
    Block.Typed Γ E ⟨span, resultTy stmts, stmts⟩

/-- **A statement obeys the typing rules.** -/
inductive Stmt.Typed (Γ : String → Ty → Prop) : Env → Stmt → Prop where
  | bind {E : Env} {span : Span} {name : Name} {body : Block} (typed : body.Typed Γ E) :
    Stmt.Typed Γ E (.bind span name body.ty body)
  | assign {E : Env} {span : Span} {target : String} {op : AssignOp} {body : Block} {l : Local}
    (refers : E target = some (.lexical l)) (assignable : l.kind = .assignable)
    (typed : body.Typed Γ E) (type : body.ty = l.ty)
    (number : op ≠ .assign → l.ty = .int ∨ l.ty = .float) :
    Stmt.Typed Γ E (.assign span target op body)
  | branch {E : Env} {span : Span} {condition : Term} {yes no : Block}
    (typed : condition.Typed Γ E) (bool : condition.ty = .bool) (typedYes : yes.Typed Γ E)
    (typedNo : no.Typed Γ E) (type : no.ty = yes.ty) :
    Stmt.Typed Γ E (.branch span yes.ty condition yes no)
  | eval {E : Env} {e : Term} (typed : e.Typed Γ E) : Stmt.Typed Γ E (.eval e)

/-- The statements of a sequence obey the typing rules, each where those before
it have led. -/
inductive StmtsTyped (Γ : String → Ty → Prop) : Env → List Stmt → Prop where
  | nil {E : Env} : StmtsTyped Γ E []
  | cons {E : Env} {s : Stmt} {rest : List Stmt} (first : s.Typed Γ E)
    (others : StmtsTyped Γ (s.scope E) rest) : StmtsTyped Γ E (s :: rest)

end

variable {Γ Δ : String → Ty → Prop} {E : Env}

/-- A call is typed if the types of the arguments are what the callee takes. -/
theorem Typed.of_parameters {span : Span} {callee : Term} {arguments : List Term}
    {argument ty : Ty} (typed : callee.Typed Γ E) (typedAll : ∀ e ∈ arguments, e.Typed Γ E)
    (takes : callee.ty = .fn argument ty) (types : arguments.map (·.ty) = argument.parameters) :
    Typed Γ E ⟨span, ty, .call callee arguments⟩ := by
  by_cases htuple : ∃ ts, argument = .tuple ts
  · obtain ⟨ts, rfl⟩ := htuple
    exact .call typed typedAll (types ▸ takes)
  · have hsingle : ∀ ts, argument ≠ .tuple ts := not_exists.mp htuple
    rw [Ty.parameters_of_ne_tuple hsingle] at types
    obtain ⟨e, rfl, rfl⟩ := List.map_eq_singleton_iff.mp types
    exact .callSingle typed (typedAll e List.mem_cons_self) takes hsingle

/-- A closure is typed if its body is, with its parameters in scope. -/
theorem Typed.of_params {span : Span} {params : List (Name × Ty)} {captures : List String}
    {body : Block} (typed : body.Typed Γ ((Local.ofParams params).foldl Env.bind E)) :
    Typed Γ E ⟨span, .functionOf (params.map (·.2)) body.ty,
      .closure (params.map fun (name, ty) => (name.text, ty)) captures body⟩ := by
  have kinds : ∀ l ∈ Local.ofParams params, l.kind = .parameter := by
    intro l hl
    obtain ⟨p, -, rfl⟩ := List.mem_map.mp hl
    rfl
  have hclosure : Typed Γ E ⟨span, _, .closure _ captures body⟩ := .closure kinds typed
  simpa [Local.ofParams, Function.comp_def] using hclosure

/-!
## More names

The rules ask of `Γ` only that names have types, so they hold on when more names
do.
-/

mutual

/-- **A term still obeys the rules** when more is known of names. -/
theorem Typed.mono (h : ∀ x ty, Γ x ty → Δ x ty) {E : Env} {t : Term} : t.Typed Γ E → t.Typed Δ E
  | .int => .int
  | .float => .float
  | .bool => .bool
  | .string => .string
  | .value hasType => .value hasType
  | .lexical refers => .lexical refers
  | .global refers published => .global refers (h _ _ published)
  | .call typed typedAll takes => .call (typed.mono h) (fun e he => (typedAll e he).mono h) takes
  | .callSingle typed typedArgument takes single =>
    .callSingle (typed.mono h) (typedArgument.mono h) takes single
  | .tuple typedAll => .tuple fun e he => (typedAll e he).mono h
  | .tupleType typedAll types => .tupleType (fun e he => (typedAll e he).mono h) types
  | .list typedAll types => .list (fun e he => (typedAll e he).mono h) types
  | .unary typed rule => .unary (typed.mono h) rule
  | .binary typedLeft typedRight rule => .binary (typedLeft.mono h) (typedRight.mono h) rule
  | .closure kinds typed => .closure kinds (typed.mono h)
termination_by structural d => d

theorem Block.Typed.mono (h : ∀ x ty, Γ x ty → Δ x ty) {E : Env} {b : Block} :
    b.Typed Γ E → b.Typed Δ E
  | .mk typed => .mk (typed.mono h)
termination_by structural d => d

theorem Stmt.Typed.mono (h : ∀ x ty, Γ x ty → Δ x ty) {E : Env} {s : Stmt} :
    s.Typed Γ E → s.Typed Δ E
  | .bind typed => .bind (typed.mono h)
  | .assign refers assignable typed type number =>
    .assign refers assignable (typed.mono h) type number
  | .branch typed bool typedYes typedNo type =>
    .branch (typed.mono h) bool (typedYes.mono h) (typedNo.mono h) type
  | .eval typed => .eval (typed.mono h)
termination_by structural d => d

theorem StmtsTyped.mono (h : ∀ x ty, Γ x ty → Δ x ty) {E : Env} {stmts : List Stmt} :
    StmtsTyped Γ E stmts → StmtsTyped Δ E stmts
  | .nil => .nil
  | .cons first others => .cons (first.mono h) (others.mono h)
termination_by structural d => d

end

/-!
## Without looking up names

What is lost is where names are bound. Types of locals are still on their nodes.
-/

theorem wellTypedAll_of_forall {ts : List Term} (h : ∀ t ∈ ts, t.WellTyped Γ) :
    WellTypedAll Γ ts := by
  induction ts with
  | nil => trivial
  | cons t ts ih =>
    obtain ⟨ht, hts⟩ := List.forall_mem_cons.mp h
    exact ⟨ht, ih hts⟩

mutual

/-- **A term that obeys the rules is well typed.** -/
theorem Typed.wellTyped {E : Env} {t : Term} : t.Typed Γ E → t.WellTyped Γ
  | .int | .float | .bool | .string | .lexical _ => rfl
  | .value hasType => hasType
  | .global _ published => published
  | .call typed typedAll takes =>
    ⟨typed.wellTyped, wellTypedAll_of_forall fun e he => (typedAll e he).wellTyped, _, takes, rfl⟩
  | .callSingle typed typedArgument takes single =>
    ⟨typed.wellTyped, ⟨typedArgument.wellTyped, trivial⟩, _, takes,
      (Ty.parameters_of_ne_tuple single).symm⟩
  | .tuple typedAll =>
    ⟨wellTypedAll_of_forall fun e he => (typedAll e he).wellTyped, .inl rfl⟩
  | .tupleType typedAll types =>
    ⟨wellTypedAll_of_forall fun e he => (typedAll e he).wellTyped, .inr ⟨rfl, types⟩⟩
  | .list typedAll types =>
    ⟨wellTypedAll_of_forall fun e he => (typedAll e he).wellTyped, _, rfl, types⟩
  | .unary typed rule => ⟨typed.wellTyped, Analysis.unaryTy_eq_some_iff.mpr rule⟩
  | .binary typedLeft typedRight rule =>
    ⟨typedLeft.wellTyped, typedRight.wellTyped, Analysis.binaryTy_eq_some_iff.mpr rule⟩
  | .closure kinds typed => ⟨typed.wellTyped, by simp [Function.comp_def]⟩
termination_by structural d => d

theorem Block.Typed.wellTyped {E : Env} {b : Block} : b.Typed Γ E → b.WellTyped Γ
  | .mk typed => ⟨typed.wellTyped, rfl⟩
termination_by structural d => d

theorem Stmt.Typed.wellTyped {E : Env} {s : Stmt} : s.Typed Γ E → WellTypedStmts Γ [s]
  | .bind typed => ⟨typed.wellTyped, rfl, trivial⟩
  | .assign _ _ typed _ _ => ⟨typed.wellTyped, trivial⟩
  | .branch typed bool typedYes typedNo type =>
    ⟨⟨typed.wellTyped, bool⟩, ⟨typedYes.wellTyped, rfl⟩, ⟨typedNo.wellTyped, type⟩, trivial⟩
  | .eval typed => ⟨typed.wellTyped, trivial⟩
termination_by structural d => d

theorem StmtsTyped.wellTyped {E : Env} {stmts : List Stmt} :
    StmtsTyped Γ E stmts → WellTypedStmts Γ stmts
  | .nil => trivial
  | .cons first others => wellTypedStmts_cons.mpr ⟨first.wellTyped, others.wellTyped⟩
termination_by structural d => d

end

end Term

end Stagewise
