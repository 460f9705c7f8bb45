import Mathlib.Data.List.Forall2
import Stagewise.Analysis.Infer

/-!
# Types of values and terms

Checking builds terms whose nodes carry types, and folding computes values of
terms without looking at the types again. That the two agree is a matter of
rules: a value **has** a type, and a term is **well typed** if the type on every
node is the one that its parts call for.

What a top-level name has for a type is not written in the term. The rules take
it from outside, as a relation `Γ` between names and types, and they need of it
only what they ask for, so that a term stays well typed when more becomes known
(`Term.WellTyped.mono`).

The value of a well typed term has the type of the term (`Fold.hasType_term`),
provided that the values that are known have the types of their names and that
the names of the built-ins have theirs. So the value of an ascription, if it
folds, is a type.
-/

namespace Stagewise

/-!
## Values

A value may have several types, for an empty list is a list of anything, and so
one says that a value has a type and not which type it has.
-/

/-- **A value has a type.** -/
inductive Value.HasType : Value → Ty → Prop where
  | int (n : Int64) : HasType (.int n) .int
  | float (x : Float) : HasType (.float x) .float
  | bool (b : Bool) : HasType (.bool b) .bool
  | string (s : String) : HasType (.string s) .string
  | type (t : Ty) : HasType (.type t) .type
  | nil : HasType .nil .nil
  | tuple {vs : List Value} {ts : List Ty} (h : List.Forall₂ HasType vs ts) :
    HasType (.tuple vs) (.tuple ts)
  | list {vs : List Value} {t : Ty} (h : ∀ v ∈ vs, HasType v t) : HasType (.list vs) (.list t)

/-- A value that has the type of types is a type. -/
theorem Value.HasType.eq_type {v : Value} (h : v.HasType .type) : ∃ t, v = .type t := by
  cases h with
  | type t => exact ⟨t, rfl⟩

/-!
## Terms

There is a type on every node, so the rules are conditions on a tree, and being
well typed is defined by recursion on it. What a block has for a type is
computed from its statements.
-/

namespace Term

mutual

/-- **A term is well typed**, where `Γ` tells the types of top-level names. -/
def WellTyped (Γ : String → Ty → Prop) : Term → Prop
  | ⟨_, ty, node⟩ => node.WellTyped Γ ty

/-- A node may have a type. -/
def Node.WellTyped (Γ : String → Ty → Prop) (ty : Ty) : Node → Prop
  | .int _ => ty = .int
  | .float _ => ty = .float
  | .bool _ => ty = .bool
  | .string _ => ty = .string
  | .value v => v.HasType ty
  | .var _ (.global x) => Γ x ty
  | .var _ (.lexical l) => ty = l.ty
  | .call callee arguments => callee.WellTyped Γ ∧ WellTypedAll Γ arguments ∧
    ∃ argument, callee.ty = .fn argument ty ∧ arguments.map (·.ty) = argument.parameters
  | .tuple elements => WellTypedAll Γ elements ∧
    (ty = .tuple (elements.map (·.ty)) ∨ ty = .type ∧ ∀ e ∈ elements, e.ty = .type)
  | .list elements => WellTypedAll Γ elements ∧ ∃ t, ty = .list t ∧ ∀ e ∈ elements, e.ty = t
  | .unary op operand => operand.WellTyped Γ ∧ Analysis.unaryTy op operand.ty = some ty
  | .binary op left right => left.WellTyped Γ ∧ right.WellTyped Γ ∧
    Analysis.binaryTy op left.ty right.ty = some ty
  | .closure params _ body => body.WellTyped Γ ∧ ty = .functionOf (params.map (·.2)) body.ty

/-- Several terms are well typed. -/
def WellTypedAll (Γ : String → Ty → Prop) : List Term → Prop
  | [] => True
  | t :: ts => t.WellTyped Γ ∧ WellTypedAll Γ ts

/-- **A block is well typed.** Its type is that of what its last statement
leaves behind. -/
def Block.WellTyped (Γ : String → Ty → Prop) : Block → Prop
  | ⟨_, ty, stmts⟩ => WellTypedStmts Γ stmts ∧ ty = resultTy stmts

/-- The statements of a sequence are well typed. -/
def WellTypedStmts (Γ : String → Ty → Prop) : List Stmt → Prop
  | [] => True
  | .bind _ _ ty body :: rest => body.WellTyped Γ ∧ body.ty = ty ∧ WellTypedStmts Γ rest
  | .assign _ _ _ body :: rest => body.WellTyped Γ ∧ WellTypedStmts Γ rest
  | .branch _ ty condition yes no :: rest =>
    (condition.WellTyped Γ ∧ condition.ty = .bool) ∧ (yes.WellTyped Γ ∧ yes.ty = ty) ∧
      (no.WellTyped Γ ∧ no.ty = ty) ∧ WellTypedStmts Γ rest
  | .eval e :: rest => e.WellTyped Γ ∧ WellTypedStmts Γ rest

end

variable {Γ Δ : String → Ty → Prop}

theorem wellTypedStmts_cons {stmt : Stmt} {rest : List Stmt} :
    WellTypedStmts Γ (stmt :: rest) ↔ WellTypedStmts Γ [stmt] ∧ WellTypedStmts Γ rest := by
  cases stmt <;> simp [WellTypedStmts, and_assoc]

/-!
## More names

By recursion on the term, where the types of names are asked for at the leaves
only.
-/

mutual

/-- **A term stays well typed** when more is known of names. -/
theorem WellTyped.mono (h : ∀ x ty, Γ x ty → Δ x ty) : (t : Term) → t.WellTyped Γ → t.WellTyped Δ
  | ⟨_, ty, node⟩, ht => Node.WellTyped.mono h ty node ht

theorem Node.WellTyped.mono (h : ∀ x ty, Γ x ty → Δ x ty) (ty : Ty) :
    (node : Node) → node.WellTyped Γ ty → node.WellTyped Δ ty
  | .int _, hn | .float _, hn | .bool _, hn | .string _, hn | .value _, hn
  | .var _ (.lexical _), hn => hn
  | .var _ (.global x), hn => h x ty hn
  | .call callee arguments, ⟨hcallee, hargs, hty⟩ =>
    ⟨WellTyped.mono h callee hcallee, WellTypedAll.mono h arguments hargs, hty⟩
  | .tuple elements, ⟨helements, hty⟩ => ⟨WellTypedAll.mono h elements helements, hty⟩
  | .list elements, ⟨helements, hty⟩ => ⟨WellTypedAll.mono h elements helements, hty⟩
  | .unary _ operand, ⟨hoperand, hty⟩ => ⟨WellTyped.mono h operand hoperand, hty⟩
  | .binary _ left right, ⟨hleft, hright, hty⟩ =>
    ⟨WellTyped.mono h left hleft, WellTyped.mono h right hright, hty⟩
  | .closure _ _ body, ⟨hbody, hty⟩ => ⟨Block.WellTyped.mono h body hbody, hty⟩

theorem WellTypedAll.mono (h : ∀ x ty, Γ x ty → Δ x ty) :
    (ts : List Term) → WellTypedAll Γ ts → WellTypedAll Δ ts
  | [], _ => trivial
  | t :: ts, ⟨ht, hts⟩ => ⟨WellTyped.mono h t ht, WellTypedAll.mono h ts hts⟩

theorem Block.WellTyped.mono (h : ∀ x ty, Γ x ty → Δ x ty) :
    (b : Block) → b.WellTyped Γ → b.WellTyped Δ
  | ⟨_, _, stmts⟩, ⟨hstmts, hty⟩ => ⟨WellTypedStmts.mono h stmts hstmts, hty⟩

theorem WellTypedStmts.mono (h : ∀ x ty, Γ x ty → Δ x ty) :
    (stmts : List Stmt) → WellTypedStmts Γ stmts → WellTypedStmts Δ stmts
  | [], _ => trivial
  | .bind _ _ _ body :: rest, ⟨hbody, hty, hrest⟩ =>
    ⟨Block.WellTyped.mono h body hbody, hty, WellTypedStmts.mono h rest hrest⟩
  | .assign _ _ _ body :: rest, ⟨hbody, hrest⟩ =>
    ⟨Block.WellTyped.mono h body hbody, WellTypedStmts.mono h rest hrest⟩
  | .branch _ _ condition yes no :: rest,
      ⟨⟨hcondition, hbool⟩, ⟨hyes, hyesTy⟩, ⟨hno, hnoTy⟩, hrest⟩ =>
    ⟨⟨WellTyped.mono h condition hcondition, hbool⟩, ⟨Block.WellTyped.mono h yes hyes, hyesTy⟩,
      ⟨Block.WellTyped.mono h no hno, hnoTy⟩, WellTypedStmts.mono h rest hrest⟩
  | .eval e :: rest, ⟨he, hrest⟩ =>
    ⟨WellTyped.mono h e he, WellTypedStmts.mono h rest hrest⟩

end

/-!
## The names of a term

A name of a declaration is asked for its type where it stands. So a term with a
name that has no type is not well typed.
-/

mutual

/-- **The names of a well typed term have types.** -/
theorem WellTyped.of_mem_globals : (t : Term) → t.WellTyped Γ → ∀ x ∈ t.globals, ∃ ty, Γ x ty
  | ⟨_, ty, node⟩, ht => Node.WellTyped.of_mem_globals ty node ht

theorem Node.WellTyped.of_mem_globals (ty : Ty) :
    (node : Node) → node.WellTyped Γ ty → ∀ x ∈ node.globals, ∃ ty, Γ x ty
  | .int _, _, _, hx | .float _, _, _, hx | .bool _, _, _, hx | .string _, _, _, hx
  | .value _, _, _, hx | .var _ (.lexical _), _, _, hx => absurd hx List.not_mem_nil
  | .var _ (.global _), hn, _, hx => ⟨ty, List.mem_singleton.mp hx ▸ hn⟩
  | .call callee arguments, ⟨hcallee, hargs, _⟩, x, hx =>
    (List.mem_append.mp hx).elim (WellTyped.of_mem_globals callee hcallee x)
      (WellTypedAll.of_mem_globals arguments hargs x)
  | .tuple elements, ⟨helements, _⟩, x, hx | .list elements, ⟨helements, _⟩, x, hx =>
    WellTypedAll.of_mem_globals elements helements x hx
  | .unary _ operand, ⟨hoperand, _⟩, x, hx => WellTyped.of_mem_globals operand hoperand x hx
  | .binary _ left right, ⟨hleft, hright, _⟩, x, hx =>
    (List.mem_append.mp hx).elim (WellTyped.of_mem_globals left hleft x)
      (WellTyped.of_mem_globals right hright x)
  | .closure _ _ body, ⟨hbody, _⟩, x, hx => Block.WellTyped.of_mem_globals body hbody x hx

theorem WellTypedAll.of_mem_globals :
    (ts : List Term) → WellTypedAll Γ ts → ∀ x ∈ globalsAll ts, ∃ ty, Γ x ty
  | [], _, _, hx => absurd hx List.not_mem_nil
  | t :: ts, ⟨ht, hts⟩, x, hx =>
    (List.mem_append.mp hx).elim (WellTyped.of_mem_globals t ht x)
      (WellTypedAll.of_mem_globals ts hts x)

theorem Block.WellTyped.of_mem_globals :
    (b : Block) → b.WellTyped Γ → ∀ x ∈ b.globals, ∃ ty, Γ x ty
  | ⟨_, _, stmts⟩, ⟨hstmts, _⟩ => WellTypedStmts.of_mem_globals stmts hstmts

theorem WellTypedStmts.of_mem_globals :
    (stmts : List Stmt) → WellTypedStmts Γ stmts → ∀ x ∈ globalsStmts stmts, ∃ ty, Γ x ty
  | [], _, _, hx => absurd hx List.not_mem_nil
  | .bind _ _ _ body :: rest, ⟨hbody, _, hrest⟩, x, hx
  | .assign _ _ _ body :: rest, ⟨hbody, hrest⟩, x, hx =>
    (List.mem_append.mp hx).elim (Block.WellTyped.of_mem_globals body hbody x)
      (WellTypedStmts.of_mem_globals rest hrest x)
  | .branch _ _ condition yes no :: rest, ⟨⟨hcondition, _⟩, ⟨hyes, _⟩, ⟨hno, _⟩, hrest⟩, x, hx => by
    rw [globalsStmts, List.mem_append, List.mem_append, List.mem_append] at hx
    obtain ((hx | hx) | hx) | hx := hx
    · exact WellTyped.of_mem_globals condition hcondition x hx
    · exact Block.WellTyped.of_mem_globals yes hyes x hx
    · exact Block.WellTyped.of_mem_globals no hno x hx
    · exact WellTypedStmts.of_mem_globals rest hrest x hx
  | .eval e :: rest, ⟨he, hrest⟩, x, hx =>
    (List.mem_append.mp hx).elim (WellTyped.of_mem_globals e he x)
      (WellTypedStmts.of_mem_globals rest hrest x)

end

end Term

/-!
## Folding

An operator that is applied to values of the types it takes gives a value of the
type it gives, if it gives any. That folding keeps types follows by recursion on
the term, and the types on its nodes are what the recursion goes by.
-/

namespace Fold

open Analysis (unaryTy binaryTy)

variable {Γ : String → Ty → Prop} {known : Values} {v w u : Value} {ty left right : Ty}

theorem hasType_unary {op : UnaryOp} (hv : v.HasType left) (hty : unaryTy op left = some ty)
    (h : Fold.unary op v = some w) : w.HasType ty := by
  cases op <;> cases hv <;> simp_all [unaryTy, Fold.unary, Ty.isNumeric]
  case negate.int =>
    obtain ⟨m, -, rfl⟩ := h
    exact hty ▸ .int m
  case negate.float => exact hty ▸ h ▸ .float _
  case not.bool => exact hty ▸ h ▸ .bool _

/-- Arithmetic stays within the kind of its operands. -/
theorem hasType_arithmetic {op : BinaryOp} (hv : v.HasType ty) (h : arithmetic op v w = some u) :
    u.HasType ty := by
  cases hv <;> cases w <;> simp only [arithmetic, Option.map_eq_map, reduceCtorEq] at h
  case int.int =>
    obtain ⟨n, -, rfl⟩ := Option.map_eq_some_iff.mp h
    exact .int n
  case float.float =>
    obtain ⟨x, -, rfl⟩ := Option.map_eq_some_iff.mp h
    exact .float x

theorem hasType_ordering {op : BinaryOp} (h : ordering op v w = some u) : u.HasType .bool := by
  cases v <;> cases w <;> simp only [ordering, Option.map_eq_map, reduceCtorEq] at h
  all_goals
    obtain ⟨b, -, rfl⟩ := Option.map_eq_some_iff.mp h
    exact .bool b

theorem hasType_connective {op : BinaryOp} (h : connective op v w = some u) : u.HasType .bool := by
  cases v <;> cases w <;> simp only [connective, reduceCtorEq] at h
  exact Option.some.inj h ▸ .bool _

theorem hasType_binary {op : BinaryOp} (hv : v.HasType left)
    (hty : binaryTy op left right = some ty) (h : Fold.binary op v w = some u) : u.HasType ty := by
  unfold binaryTy at hty
  split at hty
  · exact absurd hty (by simp)
  unfold Fold.binary at h
  cases hgroup : op.group <;> simp only [hgroup] at hty h
  case arithmetic =>
    obtain ⟨-, hty⟩ := Option.ite_none_right_eq_some.mp hty
    exact Option.some.inj hty ▸ hasType_arithmetic hv h
  case ordering =>
    obtain ⟨-, hty⟩ := Option.ite_none_right_eq_some.mp hty
    exact Option.some.inj hty ▸ hasType_ordering h
  case connective =>
    obtain ⟨-, hty⟩ := Option.ite_none_right_eq_some.mp hty
    exact Option.some.inj hty ▸ hasType_connective h
  case equality =>
    obtain rfl := Option.some.inj hty
    exact Option.some.inj h ▸ .bool _

/-- **What is known agrees with the types of names**: known values have the
types of their names, and the names of built-ins have theirs. -/
structure Agrees (known : Values) (Γ : String → Ty → Prop) : Prop where
  values : ∀ x v ty, known.lookup x = some v → Γ x ty → v.HasType ty
  builtins : ∀ b ty, Γ (Builtin.name b) ty → ty = b.ty

/-- What calling a built-in gives is a type, and that is what its type says. -/
theorem result_eq_type {b : Builtin} {argument : Ty} (h : b.ty = .fn argument ty) : ty = .type := by
  cases b <;> simp_all [Builtin.ty, Ty.functionOf]

/-- The values of terms of one type have that type. -/
theorem hasType_of_forall₂ {vs : List Value} {ts : List Term}
    (h : List.Forall₂ (fun v t => v.HasType t.ty) vs ts) (hall : ∀ t ∈ ts, t.ty = ty) :
    ∀ v ∈ vs, v.HasType ty := by
  induction h with
  | nil => exact fun v hv => absurd hv List.not_mem_nil
  | @cons v t vs ts ht _ ih =>
    obtain ⟨hty, hall⟩ := List.forall_mem_cons.mp hall
    exact List.forall_mem_cons.mpr ⟨hty ▸ ht, ih hall⟩

/-- A term that names a built-in has its type. -/
theorem ty_of_builtin? (hknown : Agrees known Γ) (t : Term) (ht : t.WellTyped Γ) {b : Builtin}
    (hb : builtin? t = some b) : t.ty = b.ty := by
  unfold builtin? at hb
  split at hb
  · rename_i name
    have hname : b.name = name := by simpa using List.find?_some hb
    subst hname
    exact hknown.builtins b _ ht
  · exact absurd hb (by simp)

mutual

/-- **The value of a well typed term has the type of the term.**

For a name it is the assumption on what is known. For a call there is only one
kind that folds, that of a built-in, and what it constructs is a type. -/
theorem hasType_term (hknown : Agrees known Γ) :
    (t : Term) → t.WellTyped Γ → ∀ v, Fold.term known t = some v → v.HasType t.ty
  | ⟨_, ty, node⟩, ht => hasType_node hknown ty node ht

theorem hasType_node (hknown : Agrees known Γ) (ty : Ty) :
    (node : Term.Node) → node.WellTyped Γ ty → ∀ v, Fold.node known ty node = some v → v.HasType ty
  | .int n, hn, _, h => Option.some.inj h ▸ hn ▸ .int n
  | .float x, hn, _, h => Option.some.inj h ▸ hn ▸ .float x
  | .bool b, hn, _, h => Option.some.inj h ▸ hn ▸ .bool b
  | .string s, hn, _, h => Option.some.inj h ▸ hn ▸ .string s
  | .value _, hn, _, h => Option.some.inj h ▸ hn
  | .var _ (.global x), hn, v, h => hknown.values x v ty h hn
  | .tuple elements, ⟨helements, hty⟩, v, h => by
    obtain ⟨vs, hvs, h⟩ := Option.bind_eq_some_iff.mp h
    have htypes := hasType_terms hknown elements helements vs hvs
    obtain rfl | ⟨rfl, -⟩ := hty
    · rw [if_neg (by simp)] at h
      exact Option.some.inj h ▸ .tuple (List.forall₂_map_right_iff.mpr htypes)
    · rw [if_pos rfl] at h
      obtain ⟨ts, -, h⟩ := Option.bind_eq_some_iff.mp h
      exact Option.some.inj h ▸ .type _
  | .list elements, ⟨helements, t, hty, hall⟩, v, h => by
    obtain ⟨vs, hvs, rfl⟩ := Option.map_eq_some_iff.mp h
    subst hty
    exact .list (hasType_of_forall₂ (hasType_terms hknown elements helements vs hvs) hall)
  | .unary op operand, ⟨hoperand, hty⟩, v, h => by
    obtain ⟨w, hw, h⟩ := Option.bind_eq_some_iff.mp h
    exact hasType_unary (hasType_term hknown operand hoperand w hw) hty h
  | .binary op left right, ⟨hleft, _, hty⟩, v, h => by
    obtain ⟨a, ha, h⟩ := Option.bind_eq_some_iff.mp h
    obtain ⟨b, -, h⟩ := Option.bind_eq_some_iff.mp h
    exact hasType_binary (hasType_term hknown left hleft a ha) hty h
  | .call callee arguments, ⟨hcallee, _, argument, hty, _⟩, v, h => by
    obtain ⟨b, hb, h⟩ := Option.bind_eq_some_iff.mp h
    obtain ⟨vs, -, h⟩ := Option.bind_eq_some_iff.mp h
    obtain ⟨ts, -, h⟩ := Option.bind_eq_some_iff.mp h
    obtain ⟨t, -, rfl⟩ := Option.map_eq_some_iff.mp h
    obtain rfl := result_eq_type ((ty_of_builtin? hknown callee hcallee hb).symm.trans hty)
    exact .type t
  | .var _ (.lexical _), _, _, h | .closure _ _ _, _, _, h => absurd h (by simp [Fold.node])

theorem hasType_terms (hknown : Agrees known Γ) :
    (ts : List Term) → Term.WellTypedAll Γ ts → ∀ vs, Fold.terms known ts = some vs →
      List.Forall₂ (fun v t => v.HasType t.ty) vs ts
  | [], _, _, h => Option.some.inj h ▸ .nil
  | t :: ts, ⟨ht, hts⟩, vs, h => by
    obtain ⟨v, hv, h⟩ := Option.bind_eq_some_iff.mp h
    obtain ⟨vs, hvs, h⟩ := Option.bind_eq_some_iff.mp h
    exact Option.some.inj h ▸
      .cons (hasType_term hknown t ht v hv) (hasType_terms hknown ts hts vs hvs)

end

mutual

/-- **The value of a well typed block has the type of the block.** -/
theorem hasType_block (hknown : Agrees known Γ) :
    (b : Term.Block) → b.WellTyped Γ → ∀ v, Fold.block known b = some v → v.HasType b.ty
  | ⟨_, _, stmts⟩, ⟨hstmts, hty⟩, v, h => hty ▸ hasType_sole hknown stmts hstmts v h

theorem hasType_sole (hknown : Agrees known Γ) :
    (stmts : List Term.Stmt) → Term.WellTypedStmts Γ stmts → ∀ v, sole known stmts = some v →
      v.HasType (Term.resultTy stmts)
  | [s], hs, v, h => hasType_stmt hknown s hs v h
  | [], _, _, h | _ :: _ :: _, _, _, h => absurd h (by simp [sole])

theorem hasType_stmt (hknown : Agrees known Γ) :
    (s : Term.Stmt) → Term.WellTypedStmts Γ [s] → ∀ v, stmt known s = some v → v.HasType s.ty
  | .eval e, ⟨he, _⟩, v, h => hasType_term hknown e he v h
  | .branch _ ty condition yes no, ⟨_, ⟨hyes, hyesTy⟩, ⟨hno, hnoTy⟩, _⟩, v, h => by
    unfold stmt at h
    split at h
    · exact hyesTy ▸ hasType_block hknown yes hyes v h
    · exact hnoTy ▸ hasType_block hknown no hno v h
    · exact absurd h (by simp)
  | .bind _ _ _ _, _, _, h | .assign _ _ _ _, _, _, h => absurd h (by simp [stmt])

end

end Fold

end Stagewise
