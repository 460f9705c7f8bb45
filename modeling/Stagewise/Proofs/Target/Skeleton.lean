import Stagewise.Proofs.Skeleton
import Stagewise.Target.Lower

/-!
# Lowering keeps skeletons

Names are lowered as they are, and so are scopes, variables and parameters: the
skeleton of a lowered term is that of the term (`Term.skeleton_lower`). What a
block used as an expression becomes, a lambda or a single expression, makes no
difference, and neither does the sink.

The skeleton of a term notes what the names in it were found to refer to. A term
that obeys the typing rules has a skeleton that its environment binds
(`Term.Typed.bound`).
-/

namespace Stagewise

/-!
## Skeletons of target programs

A tree of the target is read from left to right, and its skeleton is built
before that of what follows. This saves appending skeletons, which would be a
recursion of its own.
-/

namespace Target

mutual

/-- **The skeleton of an expression**, before `rest`. -/
def Expr.skeleton : Expr → Skeleton Unit → Skeleton Unit
  | .int _, rest | .float _, rest | .bool _, rest | .string _, rest => rest
  | .descriptor _, rest | .absent, rest => rest
  | .name x, rest => .use x () rest
  | .call callee arguments, rest => callee.skeleton (Expr.skeletons arguments rest)
  | .tupleType elements, rest | .tuple elements, rest | .braced _ elements, rest =>
    Expr.skeletons elements rest
  | .unary _ operand, rest => operand.skeleton rest
  | .binary _ left right, rest => left.skeleton (right.skeleton rest)
  | .lambda _ params _ body, rest => .scope (.params params (Stmt.skeletons body .done)) rest
  | .block _ body, rest => .scope (Stmt.skeletons body .done) rest

/-- The skeletons of several expressions, one after the other. -/
def Expr.skeletons : List Expr → Skeleton Unit → Skeleton Unit
  | [], rest => rest
  | e :: es, rest => e.skeleton (Expr.skeletons es rest)

/-- **The skeleton of a statement**, before `rest`. -/
def Stmt.skeleton : Stmt → Skeleton Unit → Skeleton Unit
  | .define ty x init, rest => .define x ty (init.skeleton .done) rest
  | .assign target _ e, rest => .use target () (e.skeleton rest)
  | .branch condition yes no, rest =>
    condition.skeleton (.scope (Stmt.skeletons yes .done) (.scope (Stmt.skeletons no .done) rest))
  | .eval e, rest | .give e, rest => e.skeleton rest
  | .leave, rest => rest

/-- The skeletons of several statements, one after the other. -/
def Stmt.skeletons : List Stmt → Skeleton Unit → Skeleton Unit
  | [], rest => rest
  | s :: ss, rest => s.skeleton (Stmt.skeletons ss rest)

end

theorem Stmt.skeletons_append (ss ss' : List Stmt) (rest : Skeleton Unit) :
    Stmt.skeletons (ss ++ ss') rest = Stmt.skeletons ss (Stmt.skeletons ss' rest) := by
  induction ss with
  | nil => rfl
  | cons s ss ih => simp [Stmt.skeletons, ih]

/-- **The skeleton of an item.** The entry point is written without
parameters. -/
def Item.skeleton : Item → Skeleton Unit
  | .defineFunction s body =>
    .params (if s.isEntry then [] else s.params) (Stmt.skeletons body .done)
  | .defineConstant _ _ init => init.skeleton .done
  | .declareBuiltin _ | .defineBuiltin _ | .declareFunction _ | .declareConstant _ _ => .done

end Target

/-!
## Skeletons of terms

A term has the same shape, with what names were found to refer to noted beside
them. A block in the place of an expression is a scope, except when it is
nothing but an expression, which is lowered without a lambda around it.
-/

namespace Term

mutual

/-- **The skeleton of a term**, before `rest`, with what the names in it refer
to. -/
def skeleton : Term → Skeleton (Option Binding) → Skeleton (Option Binding)
  | ⟨_, _, node⟩, rest => node.skeleton rest

/-- The skeleton of a node. -/
def Node.skeleton : Node → Skeleton (Option Binding) → Skeleton (Option Binding)
  | .int _, rest | .float _, rest | .bool _, rest | .string _, rest | .value _, rest => rest
  | .var name binding, rest => .use name (some binding) rest
  | .call callee arguments, rest => callee.skeleton (skeletons arguments rest)
  | .tuple elements, rest | .list elements, rest => skeletons elements rest
  | .unary _ operand, rest => operand.skeleton rest
  | .binary _ left right, rest => left.skeleton (right.skeleton rest)
  | .closure params _ body, rest => .scope (.params params body.skeleton) rest

/-- The skeletons of several terms, one after the other. -/
def skeletons : List Term → Skeleton (Option Binding) → Skeleton (Option Binding)
  | [], rest => rest
  | t :: ts, rest => t.skeleton (skeletons ts rest)

/-- **The skeleton of a body.** -/
def Block.skeleton : Block → Skeleton (Option Binding)
  | ⟨_, _, stmts⟩ => skeletonStmts stmts .done

/-- The skeleton of a block in the place of an expression, which is a scope
unless the block is a single expression. -/
def Block.valueSkeleton : Block → Skeleton (Option Binding) → Skeleton (Option Binding)
  | ⟨_, _, [.eval e]⟩, rest => e.skeleton rest
  | ⟨_, _, stmts⟩, rest => .scope (skeletonStmts stmts .done) rest

/-- The skeletons of several statements, one after the other. -/
def skeletonStmts : List Stmt → Skeleton (Option Binding) → Skeleton (Option Binding)
  | [], rest => rest
  | s :: ss, rest => s.skeleton (skeletonStmts ss rest)

/-- The skeleton of a statement. Nothing is noted of what is assigned to. -/
def Stmt.skeleton : Stmt → Skeleton (Option Binding) → Skeleton (Option Binding)
  | .bind _ name ty body, rest => .define name.text ty (body.valueSkeleton .done) rest
  | .assign _ target _ body, rest => .use target none (body.valueSkeleton rest)
  | .branch _ _ condition yes no, rest =>
    condition.skeleton (.scope yes.skeleton (.scope no.skeleton rest))
  | .eval e, rest => e.skeleton rest

end

/-- **What becomes of a block in the place of an expression**: the expression
that it is, or else a scope with its statements. -/
theorem Block.value_cases (b : Block) :
    (∃ e, b.stmts = [.eval e] ∧ b.value = e.lower ∧
      ∀ rest, b.valueSkeleton rest = e.skeleton rest) ∨
    b.value = .block b.ty (lowerStmts .give b.stmts) ∧
      ∀ rest, b.valueSkeleton rest = .scope (skeletonStmts b.stmts .done) rest := by
  obtain ⟨span, ty, stmts⟩ := b
  rcases stmts with _ | ⟨s, _ | ⟨s', ss⟩⟩
  · exact .inr ⟨rfl, fun _ => rfl⟩
  · cases s with
    | eval e => exact .inl ⟨e, rfl, rfl, fun _ => rfl⟩
    | bind | assign | branch => exact .inr ⟨rfl, fun _ => rfl⟩
  · cases s <;> exact .inr ⟨rfl, fun _ => rfl⟩

theorem Block.skeleton_eq (b : Block) : b.skeleton = skeletonStmts b.stmts .done := by
  cases b
  rfl

/-- The names that are used in a block are the same in the place of an
expression. -/
theorem Block.uses_valueSkeleton (b : Block) : (b.valueSkeleton .done).uses = b.skeleton.uses := by
  rw [b.skeleton_eq]
  obtain ⟨e, hstmts, -, hskeleton⟩ | ⟨-, hskeleton⟩ := b.value_cases
  · rw [hskeleton, hstmts]
    rfl
  · rw [hskeleton]
    exact List.append_nil _

end Term

/-!
## Lowering

Lowering puts in lambdas, returns and types, and none of these has a name in it.
-/

/-- A skeleton without notes. -/
abbrev Skeleton.plain {α : Type} (o : Skeleton α) : Skeleton Unit := o.map fun _ => ()

mutual

/-- There are no names in a value. -/
theorem Value.skeleton_lower (v : Value) (ty : Ty) (rest : Skeleton Unit) :
    (v.lower ty).skeleton rest = rest := by
  cases v with
  | int | float | bool | string | type | nil =>
    unfold Value.lower Target.Expr.skeleton
    rfl
  | tuple vs =>
    cases ty with
    | tuple ts =>
      unfold Value.lower Target.Expr.skeleton
      exact Value.skeletons_lowerEach vs ts rest
    | _ => rfl
  | list vs =>
    cases ty with
    | list t =>
      unfold Value.lower Target.Expr.skeleton
      exact Value.skeletons_lowerAll vs t rest
    | _ => rfl
termination_by structural v

theorem Value.skeletons_lowerEach (vs : List Value) (ts : List Ty) (rest : Skeleton Unit) :
    Target.Expr.skeletons (Value.lowerEach vs ts) rest = rest := by
  match vs, ts with
  | [], _ | _ :: _, [] => unfold Value.lowerEach Target.Expr.skeletons; rfl
  | v :: vs, t :: ts =>
    unfold Value.lowerEach Target.Expr.skeletons
    rw [Value.skeleton_lower v t, Value.skeletons_lowerEach vs ts]
termination_by structural vs

theorem Value.skeletons_lowerAll (vs : List Value) (t : Ty) (rest : Skeleton Unit) :
    Target.Expr.skeletons (Value.lowerAll vs t) rest = rest := by
  match vs with
  | [] => unfold Value.lowerAll Target.Expr.skeletons; rfl
  | v :: vs =>
    unfold Value.lowerAll Target.Expr.skeletons
    rw [Value.skeleton_lower v t, Value.skeletons_lowerAll vs t]
termination_by structural vs

end

theorem Sink.skeletons_unit (sink : Sink) (rest : Skeleton Unit) :
    Target.Stmt.skeletons sink.unit rest = rest := by
  cases sink <;> rfl

theorem Sink.skeletons_expression (sink : Sink) (ty : Ty) (e : Target.Expr)
    (rest : Skeleton Unit) :
    Target.Stmt.skeletons (sink.expression ty e) rest = e.skeleton rest := by
  cases sink with
  | discard => rfl
  | give =>
    unfold Sink.expression
    dsimp only
    split
    · rfl
    · rfl

namespace Term

open Target (Expr)

mutual

/-- **The skeleton of a lowered term is that of the term.** -/
theorem skeleton_lower (t : Term) (rest : Skeleton (Option Binding)) :
    t.lower.skeleton rest.plain = (t.skeleton rest).plain := by
  match t with
  | ⟨_, ty, node⟩ => exact node.skeleton_lower ty rest
termination_by structural t

theorem Node.skeleton_lower (ty : Ty) (n : Node) (rest : Skeleton (Option Binding)) :
    (n.lower ty).skeleton rest.plain = (n.skeleton rest).plain := by
  match n with
  | .int _ | .float _ | .bool _ | .string _ => rfl
  | .var _ _ => rfl
  | .value v => exact v.skeleton_lower ty rest.plain
  | .call callee arguments =>
    show callee.lower.skeleton (Expr.skeletons (lowerAll arguments) rest.plain) = _
    rw [skeletons_lowerAll arguments rest]
    exact callee.skeleton_lower _
  | .tuple elements =>
    unfold Node.lower
    split
    · exact skeletons_lowerAll elements rest
    · exact skeletons_lowerAll elements rest
  | .list elements => exact skeletons_lowerAll elements rest
  | .unary _ operand => exact operand.skeleton_lower rest
  | .binary _ left right =>
    show left.lower.skeleton (right.lower.skeleton rest.plain) = _
    rw [right.skeleton_lower rest]
    exact left.skeleton_lower _
  | .closure params _ body =>
    show Skeleton.scope (.params params (Target.Stmt.skeletons (body.lower .give) .done)) rest.plain
      = .scope (Skeleton.params params body.skeleton).plain rest.plain
    rw [body.skeleton_lower .give]
    exact congrArg (Skeleton.scope · rest.plain) (Skeleton.map_params _ params _).symm
termination_by structural n

theorem skeletons_lowerAll (ts : List Term) (rest : Skeleton (Option Binding)) :
    Expr.skeletons (lowerAll ts) rest.plain = (skeletons ts rest).plain := by
  match ts with
  | [] => rfl
  | t :: ts =>
    show t.lower.skeleton (Expr.skeletons (lowerAll ts) rest.plain) = _
    rw [skeletons_lowerAll ts rest]
    exact t.skeleton_lower _
termination_by structural ts

/-- **The skeleton of a lowered body is that of the body**, whatever becomes of
its value. -/
theorem Block.skeleton_lower (sink : Sink) (b : Block) :
    Target.Stmt.skeletons (b.lower sink) .done = b.skeleton.plain := by
  match b with
  | ⟨_, _, stmts⟩ => exact skeletons_lowerStmts sink stmts .done
termination_by structural b

theorem Block.skeleton_value (b : Block) (rest : Skeleton (Option Binding)) :
    b.value.skeleton rest.plain = (b.valueSkeleton rest).plain := by
  match b with
  | ⟨span, ty, stmts⟩ =>
    have hall := skeletons_lowerStmts .give stmts
    obtain ⟨e, hstmts, hvalue, hskeleton⟩ | ⟨hvalue, hskeleton⟩ :=
      Block.value_cases ⟨span, ty, stmts⟩
    · obtain rfl : stmts = [.eval e] := hstmts
      rw [hvalue, hskeleton]
      exact (Sink.skeletons_expression .give e.ty e.lower rest.plain).symm.trans (hall rest)
    · rw [hvalue, hskeleton]
      exact congrArg (Skeleton.scope · rest.plain) (hall .done)
termination_by structural b

theorem skeletons_lowerStmts (sink : Sink) (stmts : List Stmt)
    (rest : Skeleton (Option Binding)) :
    Target.Stmt.skeletons (lowerStmts sink stmts) rest.plain
      = (skeletonStmts stmts rest).plain := by
  match stmts with
  | [] => exact sink.skeletons_unit _
  | [s] => exact s.skeletons_lower sink rest
  | s :: s' :: ss =>
    show Target.Stmt.skeletons (s.lower .discard ++ lowerStmts sink (s' :: ss)) rest.plain = _
    rw [Target.Stmt.skeletons_append, skeletons_lowerStmts sink (s' :: ss) rest]
    exact s.skeletons_lower .discard _
termination_by structural stmts

theorem Stmt.skeletons_lower (sink : Sink) (s : Stmt) (rest : Skeleton (Option Binding)) :
    Target.Stmt.skeletons (s.lower sink) rest.plain = (s.skeleton rest).plain := by
  match s with
  | .bind _ name ty body =>
    show Skeleton.define name.text ty (body.value.skeleton .done)
      (Target.Stmt.skeletons sink.unit rest.plain) = .define name.text ty _ rest.plain
    rw [sink.skeletons_unit]
    exact congrArg (Skeleton.define name.text ty · rest.plain) (body.skeleton_value .done)
  | .assign _ target op body =>
    show Skeleton.use target () (body.value.skeleton (Target.Stmt.skeletons sink.unit rest.plain))
      = .use target () _
    rw [sink.skeletons_unit]
    exact congrArg (Skeleton.use target ()) (body.skeleton_value rest)
  | .branch _ _ condition yes no =>
    show condition.lower.skeleton (.scope (Target.Stmt.skeletons (yes.lower sink) .done)
      (.scope (Target.Stmt.skeletons (no.lower sink) .done) rest.plain)) = _
    rw [yes.skeleton_lower sink, no.skeleton_lower sink]
    exact condition.skeleton_lower (.scope yes.skeleton (.scope no.skeleton rest))
  | .eval e =>
    show Target.Stmt.skeletons (sink.expression e.ty e.lower) rest.plain = _
    rw [sink.skeletons_expression]
    exact e.skeleton_lower rest
termination_by structural s

end

/-!
## Environments

The typing rules give every name a binding in the environment of its place, and
the environment of a statement is that of the one before it with one local more.
This is how a skeleton is bound as well.
-/

variable {Γ : String → Ty → Prop} {E : Env} {rest : Skeleton (Option Binding)}

theorem bound_params {params : List Local} (h : rest.Bound (params.foldl Env.bind E)) :
    (Skeleton.params (params.map Local.declarator) rest).Bound E := by
  induction params generalizing E with
  | nil => exact h
  | cons l params ih => exact ⟨l, rfl, rfl, ih h⟩

theorem bound_skeletons {ts : List Term}
    (h : ∀ t ∈ ts, ∀ rest : Skeleton (Option Binding), rest.Bound E → (t.skeleton rest).Bound E)
    (hrest : rest.Bound E) : (skeletons ts rest).Bound E := by
  induction ts with
  | nil => exact hrest
  | cons t ts ih =>
    obtain ⟨ht, hts⟩ := List.forall_mem_cons.mp h
    exact ht _ (ih hts)

/-- **The statements of a block are bound**, and what may follow them. -/
def BoundStmts (E : Env) (b : Block) : Prop :=
  ∀ rest : Skeleton (Option Binding), rest.Bound (b.stmts.foldl (fun E s => s.scope E) E) →
    (skeletonStmts b.stmts rest).Bound E

theorem BoundStmts.bound {b : Block} (h : BoundStmts E b) : b.skeleton.Bound E :=
  b.skeleton_eq ▸ h .done trivial

/-- A block in the place of an expression is bound as its statements are. -/
theorem BoundStmts.boundValue {b : Block} (h : BoundStmts E b) (hrest : rest.Bound E) :
    (b.valueSkeleton rest).Bound E := by
  obtain ⟨e, hstmts, -, hskeleton⟩ | ⟨-, hskeleton⟩ := b.value_cases
  · unfold BoundStmts at h
    rw [hstmts] at h
    rw [hskeleton]
    exact h rest hrest
  · rw [hskeleton]
    exact ⟨h .done trivial, hrest⟩

mutual

/-- **A term that obeys the typing rules** has a skeleton that its environment
binds. -/
theorem Typed.bound {E : Env} {t : Term} {rest : Skeleton (Option Binding)} :
    t.Typed Γ E → rest.Bound E → (t.skeleton rest).Bound E
  | .int, hrest | .float, hrest | .bool, hrest | .string, hrest | .value _, hrest => hrest
  | .lexical refers, hrest => ⟨refers, hrest⟩
  | .global refers _, hrest => ⟨refers, hrest⟩
  | .call typed typedAll _, hrest =>
    typed.bound (bound_skeletons (fun e he _ hr => (typedAll e he).bound hr) hrest)
  | .callSingle typed typedArgument _ _, hrest => typed.bound (typedArgument.bound hrest)
  | .tuple typedAll, hrest => bound_skeletons (fun e he _ hr => (typedAll e he).bound hr) hrest
  | .tupleType typedAll _, hrest =>
    bound_skeletons (fun e he _ hr => (typedAll e he).bound hr) hrest
  | .list typedAll _, hrest => bound_skeletons (fun e he _ hr => (typedAll e he).bound hr) hrest
  | .unary typed _, hrest => typed.bound hrest
  | .binary typedLeft typedRight _, hrest => typedLeft.bound (typedRight.bound hrest)
  | .closure _ typed, hrest => ⟨bound_params typed.boundStmts.bound, hrest⟩
termination_by structural d => d

theorem Block.Typed.boundStmts {E : Env} {b : Block} : b.Typed Γ E → BoundStmts E b
  | .mk typed => fun _ hrest => typed.bound hrest
termination_by structural d => d

theorem Stmt.Typed.bound {E : Env} {s : Stmt} {rest : Skeleton (Option Binding)} :
    s.Typed Γ E → rest.Bound (s.scope E) → (s.skeleton rest).Bound E
  | .bind typed, hrest =>
    ⟨typed.boundStmts.boundValue trivial, _, rfl, rfl, hrest⟩
  | .assign refers _ typed _ _, hrest =>
    ⟨⟨_, refers⟩, typed.boundStmts.boundValue hrest⟩
  | .branch typed _ typedYes typedNo _, hrest =>
    typed.bound ⟨typedYes.boundStmts.bound, typedNo.boundStmts.bound, hrest⟩
  | .eval typed, hrest => typed.bound hrest
termination_by structural d => d

theorem StmtsTyped.bound {E : Env} {stmts : List Stmt} {rest : Skeleton (Option Binding)} :
    StmtsTyped Γ E stmts → rest.Bound (stmts.foldl (fun E s => s.scope E) E) →
      (skeletonStmts stmts rest).Bound E
  | .nil, hrest => hrest
  | .cons first others, hrest => first.bound (others.bound hrest)
termination_by structural d => d

end

end Term

end Stagewise
