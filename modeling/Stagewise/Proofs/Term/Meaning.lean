import Mathlib.Data.List.Forall2
import Stagewise.Proofs.Term.Typing

/-!
# What terms mean, and what folding makes of them

What a term means can be said without regard to folding: by rules over the
integers, which have no bounds, so that nothing overflows (`Term.Means`). A term
has no meaning here if it depends on what only the backend knows. Doubles are
left out, but for those that are part of a known value.

Folding finds the meaning of a term or nothing. It works on sixty-four bits, and
gives up where the meaning of some part does not fit, even if the whole would
fit again. Where else it gives up can be read off the term as well: the
`Term.Obstacle`s are all there is. Neither direction looks at where in the term
an obstacle is, since folding goes through all of a term and skips nothing.
-/

namespace Stagewise

/-!
## Values without bounds

Integers of any size, and otherwise the values there are. A value of the program
is one of these, and different values stay different.
-/

/-- **A value with integers of any size.** -/
inductive Exact where
  | int (n : Int)
  | float (x : Float)
  | bool (b : Bool)
  | string (s : String)
  | tuple (elements : List Exact)
  | list (elements : List Exact)
  | type (t : Ty)
  | nil

namespace Exact

/-- **Two values are the same**: they are built alike from the same parts. -/
inductive Same : Exact → Exact → Prop where
  | int (n : Int) : Same (.int n) (.int n)
  | float {x y : Float} (h : Double.same x y = true) : Same (.float x) (.float y)
  | bool (b : Bool) : Same (.bool b) (.bool b)
  | string (s : String) : Same (.string s) (.string s)
  | tuple {vs ws : List Exact} (h : List.Forall₂ Same vs ws) : Same (.tuple vs) (.tuple ws)
  | list {vs ws : List Exact} (h : List.Forall₂ Same vs ws) : Same (.list vs) (.list ws)
  | type (t : Ty) : Same (.type t) (.type t)
  | nil : Same .nil .nil

theorem same_int_iff {m n : Int} : Same (.int m) (.int n) ↔ m = n :=
  ⟨fun h => by cases h; rfl, fun h => h ▸ .int m⟩

/-- **What an operator makes of two integers.** Division goes toward zero, and
there is none by zero. -/
def combine : BinaryOp → Int → Int → Option Exact
  | .add, m, n => some (.int (m + n))
  | .sub, m, n => some (.int (m - n))
  | .mul, m, n => some (.int (m * n))
  | .div, m, n => if n = 0 then none else some (.int (m.tdiv n))
  | .less, m, n => some (.bool (m < n))
  | .greater, m, n => some (.bool (m > n))
  | .lessEqual, m, n => some (.bool (m ≤ n))
  | .greaterEqual, m, n => some (.bool (m ≥ n))
  | .equal, _, _ | .notEqual, _, _ | .and, _, _ | .or, _, _ => none

end Exact

namespace Value

mutual

/-- **The value itself**, as one without bounds. -/
def exact : Value → Exact
  | .int n => .int n.toInt
  | .float x => .float x
  | .bool b => .bool b
  | .string s => .string s
  | .tuple vs => .tuple (exactAll vs)
  | .list vs => .list (exactAll vs)
  | .type t => .type t
  | .nil => .nil

/-- Several values, as ones without bounds. -/
def exactAll : List Value → List Exact
  | [] => []
  | v :: vs => v.exact :: exactAll vs

end

/-- An integer stays in the sixty-four bit range. -/
theorem exists_of_exact_eq_int {v : Value} {n : Int} (h : v.exact = .int n) :
    ∃ i : Int64, v = .int i ∧ i.toInt = n := by
  cases v <;> simp [exact] at h
  exact ⟨_, rfl, h⟩

theorem eq_of_exact_eq_bool {v : Value} {b : Bool} (h : v.exact = .bool b) : v = .bool b := by
  cases v <;> simp [exact] at h
  rw [h]

theorem eq_of_exact_eq_type {v : Value} {t : Ty} (h : v.exact = .type t) : v = .type t := by
  cases v <;> simp [exact] at h
  rw [h]

theorem exactAll_map_type (ts : List Ty) : exactAll (ts.map .type) = ts.map .type := by
  induction ts with
  | nil => rfl
  | cons t ts ih => rw [List.map_cons, List.map_cons, exactAll, ih, exact]

mutual

/-- **Values are compared by structure.** -/
theorem same_iff (v w : Value) : v.same w = true ↔ v.exact.Same w.exact := by
  cases v <;> cases w
  case int.int m n =>
    rw [same, beq_iff_eq, exact, exact, Exact.same_int_iff, Int64.toInt_inj]
  case float.float x y => exact ⟨.float, fun h => by cases h; assumption⟩
  case bool.bool a b =>
    rw [same, beq_iff_eq]
    exact ⟨fun h => h ▸ .bool _, fun h => by cases h; rfl⟩
  case string.string a b =>
    rw [same, beq_iff_eq]
    exact ⟨fun h => h ▸ .string _, fun h => by cases h; rfl⟩
  case tuple.tuple vs ws =>
    rw [same, sameAll_iff]
    exact ⟨.tuple, fun h => by cases h; assumption⟩
  case list.list vs ws =>
    rw [same, sameAll_iff]
    exact ⟨.list, fun h => by cases h; assumption⟩
  case type.type t u =>
    rw [same, beq_iff_eq]
    exact ⟨fun h => h ▸ .type _, fun h => by cases h; rfl⟩
  case nil.nil => exact iff_of_true rfl .nil
  -- values that are built differently
  all_goals exact iff_of_false (by simp [same]) (fun h => by cases h)
termination_by structural v

theorem sameAll_iff (vs ws : List Value) :
    sameAll vs ws = true ↔ List.Forall₂ Exact.Same (exactAll vs) (exactAll ws) := by
  cases vs with
  | nil =>
    cases ws with
    | nil => exact iff_of_true rfl .nil
    | cons w ws => exact iff_of_false (by simp [sameAll]) (fun h => by cases h)
  | cons v vs =>
    cases ws with
    | nil => exact iff_of_false (by simp [sameAll]) (fun h => by cases h)
    | cons w ws =>
      rw [sameAll, Bool.and_eq_true, same_iff v w, sameAll_iff vs ws, exactAll, exactAll,
        List.forall₂_cons]
termination_by structural vs

end

end Value

/-!
## Meaning

The rules say what a term means in terms of what its parts mean. There is none
for a double that is written or calculated, and none for what depends on the
backend: a local, a closure, a declaration that has no value, or a call of
anything but a constructor of types.
-/

namespace Term

/-- A term is the name of a built-in. -/
def Names (t : Term) (b : Builtin) : Prop := ∃ x, t.node = .var x (.global b.name)

/-- **What a term means**, where `known` are the values of declarations. -/
inductive Means (known : Values) : Term → Exact → Prop where
  | int {span : Span} {ty : Ty} (n : Int64) : Means known ⟨span, ty, .int n⟩ (.int n.toInt)
  | bool {span : Span} {ty : Ty} (b : Bool) : Means known ⟨span, ty, .bool b⟩ (.bool b)
  | string {span : Span} {ty : Ty} (s : String) : Means known ⟨span, ty, .string s⟩ (.string s)
  | value {span : Span} {ty : Ty} (v : Value) : Means known ⟨span, ty, .value v⟩ v.exact
  | global {span : Span} {ty : Ty} {x name : String} {v : Value} (h : known.lookup name = some v) :
    Means known ⟨span, ty, .var x (.global name)⟩ v.exact
  | tuple {span : Span} {ty : Ty} {es : List Term} {vs : List Exact} (values : ty ≠ .type)
    (h : List.Forall₂ (Means known) es vs) : Means known ⟨span, ty, .tuple es⟩ (.tuple vs)
  /-- A tuple that is a type. -/
  | tupleType {span : Span} {es : List Term} {ts : List Ty}
    (h : List.Forall₂ (Means known) es (ts.map .type)) :
    Means known ⟨span, .type, .tuple es⟩ (.type (.tuple ts))
  | list {span : Span} {ty : Ty} {es : List Term} {vs : List Exact}
    (h : List.Forall₂ (Means known) es vs) : Means known ⟨span, ty, .list es⟩ (.list vs)
  | negate {span : Span} {ty : Ty} {e : Term} {n : Int} (h : Means known e (.int n)) :
    Means known ⟨span, ty, .unary .negate e⟩ (.int (-n))
  | not {span : Span} {ty : Ty} {e : Term} {b : Bool} (h : Means known e (.bool b)) :
    Means known ⟨span, ty, .unary .not e⟩ (.bool !b)
  | integers {span : Span} {ty : Ty} {op : BinaryOp} {l r : Term} {m n : Int} {v : Exact}
    (left : Means known l (.int m)) (right : Means known r (.int n))
    (h : Exact.combine op m n = some v) : Means known ⟨span, ty, .binary op l r⟩ v
  | equal {span : Span} {ty : Ty} {l r : Term} {v w : Exact} {b : Bool} (left : Means known l v)
    (right : Means known r w) (h : b = true ↔ v.Same w) :
    Means known ⟨span, ty, .binary .equal l r⟩ (.bool b)
  | notEqual {span : Span} {ty : Ty} {l r : Term} {v w : Exact} {b : Bool} (left : Means known l v)
    (right : Means known r w) (h : b = true ↔ ¬v.Same w) :
    Means known ⟨span, ty, .binary .notEqual l r⟩ (.bool b)
  | and {span : Span} {ty : Ty} {l r : Term} {a b : Bool} (left : Means known l (.bool a))
    (right : Means known r (.bool b)) : Means known ⟨span, ty, .binary .and l r⟩ (.bool (a && b))
  | or {span : Span} {ty : Ty} {l r : Term} {a b : Bool} (left : Means known l (.bool a))
    (right : Means known r (.bool b)) : Means known ⟨span, ty, .binary .or l r⟩ (.bool (a || b))
  /-- The type of lists. -/
  | listOf {span : Span} {ty : Ty} {callee e : Term} {t : Ty} (name : callee.Names .list)
    (h : Means known e (.type t)) : Means known ⟨span, ty, .call callee [e]⟩ (.type (.list t))
  /-- The type of functions. -/
  | fnOf {span : Span} {ty : Ty} {callee e f : Term} {t u : Ty} (name : callee.Names .fn)
    (argument : Means known e (.type t)) (result : Means known f (.type u)) :
    Means known ⟨span, ty, .call callee [e, f]⟩ (.type (.fn t u))

/-!
## Obstacles

An obstacle is a part of a term for which no value can be had, even if all its
own parts have one. It is either a form that is never folded, or arithmetic
without a result that fits.
-/

mutual

/-- **The parts of a term**, the term itself first. The name of a built-in that
is called is no part of the call. -/
def subterms : Term → List Term
  | ⟨span, ty, node⟩ => ⟨span, ty, node⟩ :: node.subterms

/-- The parts of a node. -/
def Node.subterms : Node → List Term
  | .int _ | .float _ | .bool _ | .string _ | .value _ | .var _ _ => []
  | .call callee arguments =>
    (if (Fold.builtin? callee).isSome then [] else callee.subterms) ++ subtermsAll arguments
  | .tuple elements | .list elements => subtermsAll elements
  | .unary _ operand => operand.subterms
  | .binary _ left right => left.subterms ++ right.subterms
  | .closure _ _ body => body.subterms

/-- The parts of several terms. -/
def subtermsAll : List Term → List Term
  | [] => []
  | t :: ts => t.subterms ++ subtermsAll ts

/-- The terms in a block, and their parts. -/
def Block.subterms : Block → List Term
  | ⟨_, _, stmts⟩ => subtermsStmts stmts

/-- The terms in a sequence of statements, and their parts. -/
def subtermsStmts : List Stmt → List Term
  | [] => []
  | .bind _ _ _ body :: rest | .assign _ _ _ body :: rest => body.subterms ++ subtermsStmts rest
  | .branch _ _ condition yes no :: rest =>
    condition.subterms ++ yes.subterms ++ no.subterms ++ subtermsStmts rest
  | .eval e :: rest => e.subterms ++ subtermsStmts rest

end

theorem mem_subterms (t : Term) : t ∈ t.subterms := by
  cases t
  exact List.mem_cons_self

/-- **No part of a term is a double.** -/
def FloatFree (t : Term) : Prop := ∀ s ∈ t.subterms, s.ty ≠ .float

/-- **What stands in the way of folding.** -/
inductive Obstacle (known : Values) : Term → Prop where
  | lexical {span : Span} {ty : Ty} {x : String} {l : Local} :
    Obstacle known ⟨span, ty, .var x (.lexical l)⟩
  /-- A declaration whose value is not known. -/
  | unknown {span : Span} {ty : Ty} {x name : String} (h : known.lookup name = none) :
    Obstacle known ⟨span, ty, .var x (.global name)⟩
  | closure {span : Span} {ty : Ty} {params : List (String × Ty)} {captures : List String}
    {body : Block} : Obstacle known ⟨span, ty, .closure params captures body⟩
  /-- A call of anything but the constructors of types. -/
  | call {span : Span} {ty : Ty} {callee : Term} {arguments : List Term}
    (list : ¬callee.Names .list) (fn : ¬callee.Names .fn) :
    Obstacle known ⟨span, ty, .call callee arguments⟩
  /-- A negation that does not fit. -/
  | negation {span : Span} {ty : Ty} {e : Term} {n : Int}
    (means : Means known ⟨span, ty, .unary .negate e⟩ (.int n))
    (range : Integer.inRange n = false) : Obstacle known ⟨span, ty, .unary .negate e⟩
  /-- A sum, difference, product or quotient that does not fit. -/
  | arithmetic {span : Span} {ty : Ty} {op : BinaryOp} {l r : Term} {n : Int}
    (op_mem : op ∈ [.add, .sub, .mul, .div])
    (means : Means known ⟨span, ty, .binary op l r⟩ (.int n))
    (range : Integer.inRange n = false) : Obstacle known ⟨span, ty, .binary op l r⟩
  | divisionByZero {span : Span} {ty : Ty} {l r : Term} (zero : Means known r (.int 0)) :
    Obstacle known ⟨span, ty, .binary .div l r⟩

end Term

/-!
## Folding

With doubles out of the way a well typed term has a value, or there is an
obstacle in it.
-/

theorem Builtin.ofName?_name (b : Builtin) : ofName? b.name = some b := by
  cases b <;> decide

namespace Fold

open Term (Means Obstacle)

variable {known : Values} {v w : Value}

/-- **The built-in that a term names.** -/
theorem builtin?_eq_some_iff {t : Term} {b : Builtin} : builtin? t = some b ↔ t.Names b := by
  constructor
  · intro h
    unfold builtin? at h
    split at h
    · rename_i x name
      have hname : b.name = name := by simpa using List.find?_some h
      exact ⟨x, hname ▸ rfl⟩
    · cases h
  · obtain ⟨span, ty, node⟩ := t
    rintro ⟨x, rfl⟩
    exact b.ofName?_name

theorem types?_eq_some_iff {vs : List Value} {ts : List Ty} :
    types? vs = some ts ↔ vs = ts.map .type := by
  unfold types?
  induction vs generalizing ts with
  | nil => cases ts <;> simp
  | cons v vs ih =>
    rw [List.mapM_cons, Option.bind_eq_bind, Option.bind_eq_some_iff]
    cases ts <;> cases v <;> simp [Value.type?, Option.bind_eq_some_iff, ih, and_comm]

/-- Values that mean types are types. -/
theorem types?_of_exactAll_eq {vs : List Value} {ts : List Ty}
    (h : Value.exactAll vs = ts.map .type) : types? vs = some ts := by
  rw [types?_eq_some_iff]
  induction vs generalizing ts with
  | nil => rw [List.map_eq_nil_iff.mp h.symm, List.map_nil]
  | cons v vs ih =>
    obtain ⟨t, us, rfl, ht, hus⟩ := List.map_eq_cons_iff.mp h.symm
    rw [Value.eq_of_exact_eq_type ht.symm, ih hus.symm, List.map_cons]

/-! ### Operators -/

/-- A sum, difference, product or quotient that fits. -/
theorem combine_of_intArithmetic {op : BinaryOp} {i j k : Int64}
    (h : intArithmetic op i j = some k) :
    Exact.combine op i.toInt j.toInt = some (.int k.toInt) := by
  cases op <;> simp only [intArithmetic, reduceCtorEq] at h
  case div =>
    obtain ⟨hzero, h⟩ := Option.ite_none_left_eq_some.mp h
    rw [Exact.combine, if_neg hzero, Integer.fit_eq_some_iff.mp h]
  all_goals rw [Exact.combine, Integer.fit_eq_some_iff.mp h]

/-- **Where arithmetic has no value**: division by zero, and results that do not
fit. -/
theorem of_intArithmetic_eq_none {op : BinaryOp} (hop : op.group = .arithmetic) {i j : Int64}
    (h : intArithmetic op i j = none) : (op = .div ∧ j.toInt = 0) ∨
      ∃ n, Exact.combine op i.toInt j.toInt = some (.int n) ∧ Integer.inRange n = false := by
  cases op <;> simp only [BinaryOp.group, reduceCtorEq] at hop
  case div =>
    by_cases hzero : j.toInt = 0
    · exact .inl ⟨rfl, hzero⟩
    · rw [intArithmetic, if_neg hzero] at h
      exact .inr ⟨_, if_neg hzero, Integer.fit_eq_none_iff.mp h⟩
  all_goals exact .inr ⟨_, rfl, Integer.fit_eq_none_iff.mp h⟩

/-- Integers are compared as they are. -/
theorem combine_of_holds {op : BinaryOp} {m n : Int} {b : Bool}
    (h : holds op (compare m n) = some b) : Exact.combine op m n = some (.bool b) := by
  cases op <;> simp only [holds, reduceCtorEq] at h
  all_goals
    obtain rfl := Option.some.inj h
    rw [Exact.combine]
    congr 2
    rw [Bool.eq_iff_iff, decide_eq_true_iff]
  case less => rw [Ordering.isLT_iff_eq_lt, Int.compare_eq_lt]
  case greater => rw [Ordering.isGT_iff_eq_gt, Int.compare_eq_gt]
  case lessEqual => rw [Int.isLE_compare]
  case greaterEqual => rw [Int.isGE_compare]

/-- **What folding makes of two integers** is what the operator makes of
them. -/
theorem combine_of_binary {op : BinaryOp} {i j : Int64} (hop : op.group ≠ .equality)
    (h : Fold.binary op (.int i) (.int j) = some v) :
    Exact.combine op i.toInt j.toInt = some v.exact := by
  unfold Fold.binary at h
  cases hgroup : op.group <;> simp only [hgroup] at hop h
  case arithmetic =>
    obtain ⟨k, hk, rfl⟩ := Option.map_eq_some_iff.mp h
    exact combine_of_intArithmetic hk
  case ordering =>
    obtain ⟨b, hb, rfl⟩ := Option.map_eq_some_iff.mp h
    exact combine_of_holds hb
  case connective => cases h
  case equality => exact absurd rfl hop

/-- The operators that make something of two integers do not compare for
equality. -/
theorem group_ne_equality {op : BinaryOp} {m n : Int} {e : Exact}
    (h : Exact.combine op m n = some e) : op.group ≠ .equality := by
  rintro hop
  cases op <;> simp [BinaryOp.group, Exact.combine] at hop h

/-! ### Folding agrees with the meaning -/

mutual

/-- **A term that folds has no other meaning.** -/
theorem exact_eq_of_means (v : Value) (e : Exact) :
    (t : Term) → Fold.term known t = some v → Means known t e → v.exact = e
  | ⟨span, ty, node⟩, hv, he => exact_eq_of_means_node v e span ty node hv he

theorem exact_eq_of_means_node (v : Value) (e : Exact) (span : Span) (ty : Ty) :
    (node : Term.Node) → Fold.node known ty node = some v → Means known ⟨span, ty, node⟩ e →
      v.exact = e
  | .int n, hv, he | .bool b, hv, he | .string s, hv, he | .value w, hv, he => by
    cases he
    exact Option.some.inj hv ▸ rfl
  | .float _, _, he => by cases he
  | .closure _ _ _, _, he => by cases he
  | .var _ (.lexical _), _, he => by cases he
  | .var _ (.global name), hv, he => by
    cases he with
    | global h => exact congrArg Value.exact (Option.some.inj (hv.symm.trans h))
  | .tuple elements, hv, he => by
    obtain ⟨vs, hvs, hv⟩ := Option.bind_eq_some_iff.mp hv
    cases he with
    -- the type on the node tells a tuple of values from the type that is a tuple
    | tuple values h =>
      rw [if_neg values] at hv
      rw [← Option.some.inj hv, Value.exact, exactAll_eq_of_means vs _ elements hvs h]
    | @tupleType _ _ ts h =>
      rw [if_pos rfl] at hv
      rw [types?_of_exactAll_eq (exactAll_eq_of_means vs _ elements hvs h)] at hv
      exact Option.some.inj hv ▸ rfl
  | .list elements, hv, he => by
    obtain ⟨vs, hvs, rfl⟩ := Option.map_eq_some_iff.mp hv
    cases he with
    | list h => rw [Value.exact, exactAll_eq_of_means vs _ elements hvs h]
  | .unary op operand, hv, he => by
    obtain ⟨w, hw, hv⟩ := Option.bind_eq_some_iff.mp hv
    cases he with
    | negate h =>
      obtain ⟨i, rfl, rfl⟩ := Value.exists_of_exact_eq_int (exact_eq_of_means w _ operand hw h)
      obtain ⟨j, hj, rfl⟩ := Option.map_eq_some_iff.mp hv
      exact congrArg Exact.int (Integer.fit_eq_some_iff.mp hj)
    | not h =>
      obtain rfl := Value.eq_of_exact_eq_bool (exact_eq_of_means w _ operand hw h)
      exact Option.some.inj hv ▸ rfl
  | .binary op left right, hv, he => by
    obtain ⟨a, ha, hv⟩ := Option.bind_eq_some_iff.mp hv
    obtain ⟨b, hb, hv⟩ := Option.bind_eq_some_iff.mp hv
    cases he with
    | integers hleft hright h =>
      obtain ⟨i, rfl, rfl⟩ := Value.exists_of_exact_eq_int (exact_eq_of_means a _ left ha hleft)
      obtain ⟨j, rfl, rfl⟩ := Value.exists_of_exact_eq_int (exact_eq_of_means b _ right hb hright)
      exact Option.some.inj ((combine_of_binary (group_ne_equality h) hv).symm.trans h)
    | equal hleft hright h =>
      rw [← exact_eq_of_means a _ left ha hleft, ← exact_eq_of_means b _ right hb hright,
        ← Value.same_iff] at h
      rw [← Option.some.inj hv]
      exact congrArg Exact.bool (Bool.eq_iff_iff.mpr h.symm)
    | notEqual hleft hright h =>
      rw [← exact_eq_of_means a _ left ha hleft, ← exact_eq_of_means b _ right hb hright,
        ← Value.same_iff, Bool.not_eq_true, ← Bool.not_eq_true'] at h
      rw [← Option.some.inj hv]
      exact congrArg Exact.bool (Bool.eq_iff_iff.mpr h.symm)
    | and hleft hright =>
      obtain rfl := Value.eq_of_exact_eq_bool (exact_eq_of_means a _ left ha hleft)
      obtain rfl := Value.eq_of_exact_eq_bool (exact_eq_of_means b _ right hb hright)
      exact Option.some.inj hv ▸ rfl
    | or hleft hright =>
      obtain rfl := Value.eq_of_exact_eq_bool (exact_eq_of_means a _ left ha hleft)
      obtain rfl := Value.eq_of_exact_eq_bool (exact_eq_of_means b _ right hb hright)
      exact Option.some.inj hv ▸ rfl
  | .call callee arguments, hv, he => by
    obtain ⟨b, hb, hv⟩ := Option.bind_eq_some_iff.mp hv
    obtain ⟨vs, hvs, hcall⟩ := Option.bind_eq_some_iff.mp hv
    -- a call folds if a built-in is named, and its arguments have to be types
    have hall (ts : List Ty) (h : List.Forall₂ (Means known) arguments (ts.map .type)) :
        types? vs = some ts :=
      types?_of_exactAll_eq (exactAll_eq_of_means vs _ arguments hvs h)
    cases he with
    | @listOf _ _ _ _ t name h =>
      obtain rfl := Option.some.inj (hb.symm.trans (builtin?_eq_some_iff.mpr name))
      rw [hall [t] (.cons h .nil)] at hcall
      exact Option.some.inj hcall ▸ rfl
    | @fnOf _ _ _ _ _ t u name argument result =>
      obtain rfl := Option.some.inj (hb.symm.trans (builtin?_eq_some_iff.mpr name))
      rw [hall [t, u] (.cons argument (.cons result .nil))] at hcall
      exact Option.some.inj hcall ▸ rfl

theorem exactAll_eq_of_means (vs : List Value) (es : List Exact) :
    (ts : List Term) → Fold.terms known ts = some vs → List.Forall₂ (Means known) ts es →
      Value.exactAll vs = es
  | [], hvs, hes => by
    cases hes
    exact Option.some.inj hvs ▸ rfl
  | t :: ts, hvs, hes => by
    obtain ⟨v, hv, hvs⟩ := Option.bind_eq_some_iff.mp hvs
    obtain ⟨ws, hws, hvs⟩ := Option.bind_eq_some_iff.mp hvs
    cases hes with
    | cons he hes =>
      rw [← Option.some.inj hvs, Value.exactAll, exact_eq_of_means v _ t hv he,
        exactAll_eq_of_means ws _ ts hws hes]

end

mutual

/-- **A term folds only if every part of it does.** -/
theorem exists_of_mem_subterms (v : Value) {s : Term} :
    (t : Term) → Fold.term known t = some v → s ∈ t.subterms → ∃ w, Fold.term known s = some w
  | ⟨span, ty, node⟩, hv, hs => by
    rw [Term.subterms, List.mem_cons] at hs
    obtain rfl | hs := hs
    · exact ⟨v, hv⟩
    · exact exists_of_mem_subterms_node v ty node hv hs

theorem exists_of_mem_subterms_node (v : Value) {s : Term} (ty : Ty) :
    (node : Term.Node) → Fold.node known ty node = some v → s ∈ node.subterms →
      ∃ w, Fold.term known s = some w
  | .int _, _, hs | .float _, _, hs | .bool _, _, hs | .string _, _, hs | .value _, _, hs
  | .var _ _, _, hs => absurd hs List.not_mem_nil
  | .closure _ _ _, hv, _ => absurd hv (by simp [Fold.node])
  | .tuple elements, hv, hs => by
    obtain ⟨vs, hvs, -⟩ := Option.bind_eq_some_iff.mp hv
    exact exists_of_mem_subtermsAll vs elements hvs hs
  | .list elements, hv, hs => by
    obtain ⟨vs, hvs, -⟩ := Option.map_eq_some_iff.mp hv
    exact exists_of_mem_subtermsAll vs elements hvs hs
  | .unary _ operand, hv, hs => by
    obtain ⟨w, hw, -⟩ := Option.bind_eq_some_iff.mp hv
    exact exists_of_mem_subterms w operand hw hs
  | .binary _ left right, hv, hs => by
    obtain ⟨a, ha, hv⟩ := Option.bind_eq_some_iff.mp hv
    obtain ⟨b, hb, -⟩ := Option.bind_eq_some_iff.mp hv
    exact (List.mem_append.mp hs).elim (exists_of_mem_subterms a left ha)
      (exists_of_mem_subterms b right hb)
  | .call callee arguments, hv, hs => by
    obtain ⟨b, hb, hv⟩ := Option.bind_eq_some_iff.mp hv
    obtain ⟨vs, hvs, -⟩ := Option.bind_eq_some_iff.mp hv
    rw [Term.Node.subterms, hb, Option.isSome_some, if_pos rfl, List.nil_append] at hs
    exact exists_of_mem_subtermsAll vs arguments hvs hs

theorem exists_of_mem_subtermsAll (vs : List Value) {s : Term} :
    (ts : List Term) → Fold.terms known ts = some vs → s ∈ Term.subtermsAll ts →
      ∃ w, Fold.term known s = some w
  | [], _, hs => absurd hs List.not_mem_nil
  | t :: ts, hvs, hs => by
    obtain ⟨v, hv, hvs⟩ := Option.bind_eq_some_iff.mp hvs
    obtain ⟨ws, hws, -⟩ := Option.bind_eq_some_iff.mp hvs
    exact (List.mem_append.mp hs).elim (exists_of_mem_subterms v t hv)
      (exists_of_mem_subtermsAll ws ts hws)

end

/-- What means an integer and folds is an integer that fits. -/
theorem inRange_of_means {t : Term} {n : Int} (hv : Fold.term known t = some v)
    (h : Means known t (.int n)) : Integer.inRange n = true := by
  obtain ⟨i, -, rfl⟩ := Value.exists_of_exact_eq_int (exact_eq_of_means v _ t hv h)
  exact Integer.inRange_toInt i

/-- **Nothing that is in the way of folding folds.** -/
theorem term_eq_none_of_obstacle {t : Term} (h : Obstacle known t) : Fold.term known t = none := by
  -- an obstacle is one form of node each, and folding gives up on it by itself
  cases h with
  | lexical | closure => rfl
  | unknown h => exact h
  | @call span ty callee arguments hlist hfn =>
    cases hb : builtin? callee with
    | none => simp [Fold.term, Fold.node, hb]
    | some b =>
      have hconstruct (ts : List Ty) : b.construct? ts = none := by
        cases b with
        | list => exact absurd (builtin?_eq_some_iff.mp hb) hlist
        | fn => exact absurd (builtin?_eq_some_iff.mp hb) hfn
        | _ => rfl
      simp [Fold.term, Fold.node, hb, hconstruct]
  | negation means range | arithmetic _ means range =>
    refine Option.eq_none_iff_forall_ne_some.mpr fun v hv => ?_
    exact absurd (inRange_of_means hv means) (by simp [range])
  | divisionByZero zero =>
    refine Option.eq_none_iff_forall_ne_some.mpr fun v hv => ?_
    obtain ⟨a, -, hv⟩ := Option.bind_eq_some_iff.mp hv
    obtain ⟨b, hb, hv⟩ := Option.bind_eq_some_iff.mp hv
    obtain ⟨j, rfl, hj⟩ := Value.exists_of_exact_eq_int (exact_eq_of_means b _ _ hb zero)
    cases a <;> simp [Fold.binary, BinaryOp.group, arithmetic, intArithmetic, hj] at hv

/-! ### Well typed terms -/

variable {Γ : String → Ty → Prop} {ty : Ty}

/-- Values of other types are no doubles. -/
theorem ne_float_of_hasType (h : v.HasType ty) (hty : ty ≠ .float) (x : Float) : v ≠ .float x := by
  rintro rfl
  cases h
  exact hty rfl

/-- Values that have the type of types are types, as many as there are
values. -/
theorem exists_types? {vs : List Value} (h : ∀ v ∈ vs, v.HasType .type) :
    ∃ ts, types? vs = some ts ∧ ts.length = vs.length := by
  simp only [types?_eq_some_iff]
  induction vs with
  | nil => exact ⟨[], rfl, rfl⟩
  | cons v vs ih =>
    obtain ⟨hv, hvs⟩ := List.forall_mem_cons.mp h
    obtain ⟨t, rfl⟩ := hv.eq_type
    obtain ⟨ts, rfl, hlen⟩ := ih hvs
    exact ⟨t :: ts, rfl, congrArg (· + 1) hlen⟩

/-- A built-in that can be called takes types, and constructs a type from as
many as it takes. -/
theorem exists_construct? {b : Builtin} {argument : Ty} (hty : b.ty = .fn argument ty) :
    (∀ p ∈ argument.parameters, p = .type) ∧
      ∀ ts : List Ty, ts.length = argument.parameters.length → ∃ t, b.construct? ts = some t := by
  cases b with
  | list =>
    obtain ⟨rfl, -⟩ := Ty.fn.inj hty
    refine ⟨by simp [Ty.parameters], fun ts hts => ?_⟩
    obtain ⟨t, rfl⟩ := List.length_eq_one_iff.mp hts
    exact ⟨_, rfl⟩
  | fn =>
    obtain ⟨rfl, -⟩ := Ty.fn.inj hty
    refine ⟨by simp [Ty.parameters], fun ts hts => ?_⟩
    obtain ⟨t, u, rfl⟩ := List.length_eq_two.mp hts
    exact ⟨_, rfl⟩
  | _ => cases hty

section Operators

variable {span : Span} {l r : Term}

/-- What a constructor of types makes of types. -/
theorem means_call {b : Builtin} {callee : Term} {arguments : List Term} {ts : List Ty}
    (hb : builtin? callee = some b) (hts : List.Forall₂ (Means known) arguments (ts.map .type))
    (h : .type <$> b.construct? ts = some v) :
    Means known ⟨span, ty, .call callee arguments⟩ v.exact := by
  obtain ⟨t, ht, rfl⟩ := Option.map_eq_some_iff.mp h
  have hname := builtin?_eq_some_iff.mp hb
  unfold Builtin.construct? at ht
  split at ht
  case h_1 element =>
    obtain ⟨e, _, he, hrest, rfl⟩ := List.forall₂_cons_right_iff.mp hts
    cases hrest
    exact Option.some.inj ht ▸ .listOf hname he
  case h_2 argument result =>
    obtain ⟨e, _, he, hresults, rfl⟩ := List.forall₂_cons_right_iff.mp hts
    obtain ⟨f, _, hf, hrest, rfl⟩ := List.forall₂_cons_right_iff.mp hresults
    cases hrest
    exact Option.some.inj ht ▸ .fnOf hname he hf
  case h_3 => cases ht

theorem means_unary {op : UnaryOp} (hfloat : ∀ x, w ≠ .float x) (hw : Means known l w.exact)
    (h : Fold.unary op w = some v) : Means known ⟨span, ty, .unary op l⟩ v.exact := by
  cases op <;> cases w <;> simp only [Fold.unary, reduceCtorEq] at h
  case negate.int i =>
    obtain ⟨j, hj, rfl⟩ := Option.map_eq_some_iff.mp h
    rw [Value.exact, Integer.fit_eq_some_iff.mp hj]
    exact .negate hw
  case negate.float x => exact absurd rfl (hfloat x)
  case not.bool b => exact Option.some.inj h ▸ .not hw

/-- Operands that are no doubles and that are calculated with or put in order
are integers. -/
theorem exists_ints_of_binary {op : BinaryOp} {a b : Value} (hfloat : ∀ x, a ≠ .float x)
    (hop : op.group = .arithmetic ∨ op.group = .ordering) (h : Fold.binary op a b = some v) :
    ∃ i j, a = .int i ∧ b = .int j := by
  obtain hgroup | hgroup := hop
  all_goals
    simp only [Fold.binary, hgroup] at h
    cases a <;> cases b <;> simp only [arithmetic, ordering, reduceCtorEq] at h
  case inl.int.int | inr.int.int => exact ⟨_, _, rfl, rfl⟩
  case inl.float.float x _ | inr.float.float x _ => exact absurd rfl (hfloat x)

theorem means_binary {op : BinaryOp} {a b : Value} (hfloat : ∀ x, a ≠ .float x)
    (ha : Means known l a.exact) (hb : Means known r b.exact) (h : Fold.binary op a b = some v) :
    Means known ⟨span, ty, .binary op l r⟩ v.exact := by
  cases hgroup : op.group
  case arithmetic =>
    obtain ⟨i, j, rfl, rfl⟩ := exists_ints_of_binary hfloat (.inl hgroup) h
    exact .integers ha hb (combine_of_binary (by simp [hgroup]) h)
  case ordering =>
    obtain ⟨i, j, rfl, rfl⟩ := exists_ints_of_binary hfloat (.inr hgroup) h
    exact .integers ha hb (combine_of_binary (by simp [hgroup]) h)
  case equality =>
    cases op <;> simp only [BinaryOp.group, reduceCtorEq] at hgroup
    case equal =>
      obtain rfl := Option.some.inj h
      exact .equal ha hb (Value.same_iff a b)
    case notEqual =>
      obtain rfl := Option.some.inj h
      refine .notEqual ha hb ?_
      rw [← Value.same_iff, Bool.not_eq_true, if_neg (by simp), Bool.not_eq_true']
  case connective =>
    simp only [Fold.binary, hgroup] at h
    cases a <;> cases b <;> simp only [connective, reduceCtorEq] at h
    cases op <;> simp only [BinaryOp.group, reduceCtorEq] at hgroup
    case and => exact Option.some.inj h ▸ .and ha hb
    case or => exact Option.some.inj h ▸ .or ha hb

/-- **An operator that applies to an operand** has a value, but for negations
that do not fit. -/
theorem obstacle_of_unary {op : UnaryOp} {left : Ty} (hw : w.HasType left) (hleft : left ≠ .float)
    (hty : Analysis.unaryTy op left = some ty) (hl : Means known l w.exact)
    (h : Fold.unary op w = none) : Obstacle known ⟨span, ty, .unary op l⟩ := by
  cases op with
  | negate =>
    cases hw <;> simp [Analysis.unaryTy, Ty.isNumeric] at hty hleft
    exact .negation (.negate hl) (Integer.fit_eq_none_iff.mp (Option.map_eq_none_iff.mp h))
  | not => cases hw <;> simp [Analysis.unaryTy, Fold.unary] at hty h

/-- **An operator that applies to two operands** has a value, but for arithmetic
that does not fit and for divisions by zero. -/
theorem obstacle_of_binary {op : BinaryOp} {a b : Value} {left right : Ty} (ha : a.HasType left)
    (hb : b.HasType right) (hleft : left ≠ .float)
    (hty : Analysis.binaryTy op left right = some ty) (hl : Means known l a.exact)
    (hr : Means known r b.exact) (h : Fold.binary op a b = none) :
    Obstacle known ⟨span, ty, .binary op l r⟩ := by
  unfold Analysis.binaryTy at hty
  obtain ⟨hsame, hrule⟩ := Option.ite_none_left_eq_some.mp hty
  obtain rfl := not_not.mp hsame
  unfold Fold.binary at h
  cases hgroup : op.group <;> simp only [hgroup] at hrule h
  case arithmetic =>
    obtain ⟨hnumeric, -⟩ := Option.ite_none_right_eq_some.mp hrule
    cases ha <;> simp [Ty.isNumeric] at hnumeric hleft
    cases hb
    obtain ⟨rfl, hzero⟩ | ⟨n, hn, hrange⟩ :=
      of_intArithmetic_eq_none hgroup (Option.map_eq_none_iff.mp h)
    · exact .divisionByZero (hzero ▸ hr)
    · refine .arithmetic ?_ (.integers hl hr hn) hrange
      cases op <;> simp [BinaryOp.group] at hgroup ⊢
  case ordering =>
    obtain ⟨hnumeric, -⟩ := Option.ite_none_right_eq_some.mp hrule
    cases ha <;> simp [Ty.isNumeric] at hnumeric hleft
    cases hb
    cases op <;> simp [BinaryOp.group, ordering, holds] at hgroup h
  case connective =>
    obtain ⟨rfl, -⟩ := Option.ite_none_right_eq_some.mp hrule
    cases ha
    cases hb
    cases h
  case equality => cases h

end Operators

mutual

/-- **A term without doubles that folds means what it folds to.** -/
theorem means_term (hknown : Agrees known Γ) (v : Value) :
    (t : Term) → t.WellTyped Γ → t.FloatFree → Fold.term known t = some v → Means known t v.exact
  | ⟨span, ty, node⟩, ht, hfree, hv =>
    means_node hknown v span ty node ht (List.forall_mem_cons.mp hfree).1
      (List.forall_mem_cons.mp hfree).2 hv

theorem means_node (hknown : Agrees known Γ) (v : Value) (span : Span) (ty : Ty) :
    (node : Term.Node) → node.WellTyped Γ ty → ty ≠ .float →
      (∀ s ∈ node.subterms, s.ty ≠ .float) → Fold.node known ty node = some v →
      Means known ⟨span, ty, node⟩ v.exact
  | .int n, _, _, _, hv => Option.some.inj hv ▸ .int n
  | .float _, hn, hty, _, _ => absurd hn hty
  | .bool b, _, _, _, hv => Option.some.inj hv ▸ .bool b
  | .string s, _, _, _, hv => Option.some.inj hv ▸ .string s
  | .value w, _, _, _, hv => Option.some.inj hv ▸ .value w
  | .var _ (.global _), _, _, _, hv => .global hv
  | .var _ (.lexical _), _, _, _, hv | .closure _ _ _, _, _, _, hv =>
    absurd hv (by simp [Fold.node])
  | .tuple elements, ⟨helements, _⟩, _, hfree, hv => by
    obtain ⟨vs, hvs, hv⟩ := Option.bind_eq_some_iff.mp hv
    have hmeans := means_terms hknown vs elements helements hfree hvs
    split at hv
    next hty =>
      obtain ⟨ts, hts, hv⟩ := Option.bind_eq_some_iff.mp hv
      rw [types?_eq_some_iff.mp hts, Value.exactAll_map_type] at hmeans
      exact Option.some.inj hv ▸ hty ▸ .tupleType hmeans
    next hty => exact Option.some.inj hv ▸ .tuple hty hmeans
  | .list elements, ⟨helements, _⟩, _, hfree, hv => by
    obtain ⟨vs, hvs, rfl⟩ := Option.map_eq_some_iff.mp hv
    exact .list (means_terms hknown vs elements helements hfree hvs)
  | .unary op operand, ⟨hoperand, _⟩, _, hfree, hv => by
    obtain ⟨w, hw, hv⟩ := Option.bind_eq_some_iff.mp hv
    exact means_unary
      (ne_float_of_hasType (hasType_term hknown operand hoperand w hw)
        (hfree operand operand.mem_subterms))
      (means_term hknown w operand hoperand hfree hw) hv
  | .binary op left right, ⟨hleft, hright, _⟩, _, hfree, hv => by
    obtain ⟨a, ha, hv⟩ := Option.bind_eq_some_iff.mp hv
    obtain ⟨b, hb, hv⟩ := Option.bind_eq_some_iff.mp hv
    obtain ⟨hfreeLeft, hfreeRight⟩ := List.forall_mem_append.mp hfree
    exact means_binary
      (ne_float_of_hasType (hasType_term hknown left hleft a ha)
        (hfreeLeft left left.mem_subterms))
      (means_term hknown a left hleft hfreeLeft ha)
      (means_term hknown b right hright hfreeRight hb) hv
  | .call callee arguments, ⟨_, harguments, _⟩, _, hfree, hv => by
    obtain ⟨b, hb, hv⟩ := Option.bind_eq_some_iff.mp hv
    obtain ⟨vs, hvs, hv⟩ := Option.bind_eq_some_iff.mp hv
    obtain ⟨ts, hts, hv⟩ := Option.bind_eq_some_iff.mp hv
    have hmeans := means_terms hknown vs arguments harguments
      (List.forall_mem_append.mp hfree).2 hvs
    rw [types?_eq_some_iff.mp hts, Value.exactAll_map_type] at hmeans
    exact means_call hb hmeans hv

theorem means_terms (hknown : Agrees known Γ) (vs : List Value) :
    (ts : List Term) → Term.WellTypedAll Γ ts → (∀ s ∈ Term.subtermsAll ts, s.ty ≠ .float) →
      Fold.terms known ts = some vs → List.Forall₂ (Means known) ts (Value.exactAll vs)
  | [], _, _, hvs => Option.some.inj hvs ▸ .nil
  | t :: ts, ⟨ht, hts⟩, hfree, hvs => by
    obtain ⟨v, hv, hvs⟩ := Option.bind_eq_some_iff.mp hvs
    obtain ⟨ws, hws, hvs⟩ := Option.bind_eq_some_iff.mp hvs
    obtain ⟨hfree, hfrees⟩ := List.forall_mem_append.mp hfree
    exact Option.some.inj hvs ▸
      .cons (means_term hknown v t ht hfree hv) (means_terms hknown ws ts hts hfrees hws)

end

mutual

/-- **A term without doubles that does not fold has something in the way.** -/
theorem exists_obstacle (hknown : Agrees known Γ) :
    (t : Term) → t.WellTyped Γ → t.FloatFree → Fold.term known t = none →
      ∃ s ∈ t.subterms, Obstacle known s
  | ⟨span, ty, node⟩, ht, hfree, h => by
    obtain ⟨-, hfree⟩ := List.forall_mem_cons.mp hfree
    rw [Term.subterms, List.exists_mem_cons_iff]
    exact exists_obstacle_node hknown span ty node ht hfree h

theorem exists_obstacle_node (hknown : Agrees known Γ) (span : Span) (ty : Ty) :
    (node : Term.Node) → node.WellTyped Γ ty → (∀ s ∈ node.subterms, s.ty ≠ .float) →
      Fold.node known ty node = none →
      Obstacle known ⟨span, ty, node⟩ ∨ ∃ s ∈ node.subterms, Obstacle known s
  | .int _, _, _, h | .float _, _, _, h | .bool _, _, _, h | .string _, _, _, h
  | .value _, _, _, h => absurd h (by simp [Fold.node])
  | .var _ (.global _), _, _, h => .inl (.unknown h)
  | .var _ (.lexical _), _, _, _ => .inl .lexical
  | .closure _ _ _, _, _, _ => .inl .closure
  | .tuple elements, ⟨helements, hty⟩, hfree, h => by
    refine .inr ?_
    cases hvs : Fold.terms known elements with
    | none => exact exists_obstacle_terms hknown elements helements hfree hvs
    | some vs =>
      simp only [Fold.node, hvs, Option.bind_eq_bind, Option.bind_some] at h
      obtain rfl | ⟨rfl, hall⟩ := hty
      · simp at h
      · have htypes := hasType_of_forall₂ (hasType_terms hknown elements helements vs hvs) hall
        obtain ⟨ts, hts, -⟩ := exists_types? htypes
        simp [hts] at h
  | .list elements, ⟨helements, _⟩, hfree, h =>
    .inr (exists_obstacle_terms hknown elements helements hfree (Option.map_eq_none_iff.mp h))
  | .unary op operand, ⟨hoperand, hty⟩, hfree, h => by
    cases hw : Fold.term known operand with
    | none => exact .inr (exists_obstacle hknown operand hoperand hfree hw)
    | some w =>
      simp only [Fold.node, hw, Option.bind_eq_bind, Option.bind_some] at h
      exact .inl (obstacle_of_unary (hasType_term hknown operand hoperand w hw)
        (hfree operand operand.mem_subterms) hty (means_term hknown w operand hoperand hfree hw) h)
  | .binary op left right, ⟨hleft, hright, hty⟩, hfree, h => by
    obtain ⟨hfreeLeft, hfreeRight⟩ := List.forall_mem_append.mp hfree
    simp only [Term.Node.subterms, List.mem_append, or_and_right, exists_or]
    cases ha : Fold.term known left with
    | none => exact .inr (.inl (exists_obstacle hknown left hleft hfreeLeft ha))
    | some a =>
      cases hb : Fold.term known right with
      | none => exact .inr (.inr (exists_obstacle hknown right hright hfreeRight hb))
      | some b =>
        simp only [Fold.node, ha, hb, Option.bind_eq_bind, Option.bind_some] at h
        exact .inl (obstacle_of_binary (hasType_term hknown left hleft a ha)
          (hasType_term hknown right hright b hb) (hfreeLeft left left.mem_subterms) hty
          (means_term hknown a left hleft hfreeLeft ha)
          (means_term hknown b right hright hfreeRight hb) h)
  | .call callee arguments, ⟨hcallee, harguments, argument, hty, htypes⟩, hfree, h => by
    cases hb : builtin? callee with
    | none =>
      exact .inl (.call (fun hlist => by simp [builtin?_eq_some_iff.mpr hlist] at hb)
        (fun hfn => by simp [builtin?_eq_some_iff.mpr hfn] at hb))
    | some b =>
      rw [ty_of_builtin? hknown callee hcallee hb] at hty
      obtain ⟨hparameters, hconstruct⟩ := exists_construct? hty
      simp only [Term.Node.subterms, List.mem_append, or_and_right, exists_or]
      cases hvs : Fold.terms known arguments with
      | none =>
        exact .inr (.inr (exists_obstacle_terms hknown arguments harguments
          (List.forall_mem_append.mp hfree).2 hvs))
      | some vs =>
        -- the arguments are types, as many as the built-in takes
        have hall : ∀ e ∈ arguments, e.ty = .type := fun e he =>
          hparameters e.ty (htypes ▸ List.mem_map_of_mem he)
        have hvalues := hasType_terms hknown arguments harguments vs hvs
        obtain ⟨ts, hts, hlen⟩ := exists_types? (hasType_of_forall₂ hvalues hall)
        obtain ⟨t, ht⟩ := hconstruct ts
          (by rw [hlen, hvalues.length_eq, ← htypes, List.length_map])
        simp [Fold.node, hb, hvs, hts, ht] at h

theorem exists_obstacle_terms (hknown : Agrees known Γ) :
    (ts : List Term) → Term.WellTypedAll Γ ts → (∀ s ∈ Term.subtermsAll ts, s.ty ≠ .float) →
      Fold.terms known ts = none → ∃ s ∈ Term.subtermsAll ts, Obstacle known s
  | [], _, _, h => absurd h (by simp [Fold.terms])
  | t :: ts, ⟨ht, hts⟩, hfree, h => by
    obtain ⟨hfree, hfrees⟩ := List.forall_mem_append.mp hfree
    simp only [Term.subtermsAll, List.mem_append, or_and_right, exists_or]
    cases hv : Fold.term known t with
    | none => exact .inl (exists_obstacle hknown t ht hfree hv)
    | some v =>
      cases hvs : Fold.terms known ts with
      | none => exact .inr (exists_obstacle_terms hknown ts hts hfrees hvs)
      | some vs => simp [Fold.terms, hv, hvs] at h

end

/-! ### Blocks -/

/-- **A block folds** if it is an expression that folds, or a branch whose
condition folds and whose arm for it folds. -/
theorem block_eq_some_iff {b : Term.Block} : Fold.block known b = some v ↔
    (∃ e, b.stmts = [.eval e] ∧ Fold.term known e = some v) ∨
      ∃ span ty condition yes no chosen, b.stmts = [.branch span ty condition yes no] ∧
        Fold.term known condition = some (.bool chosen) ∧
        Fold.block known (if chosen then yes else no) = some v := by
  obtain ⟨span, ty, stmts⟩ := b
  rw [Fold.block]
  rcases stmts with - | ⟨stmt, - | ⟨second, rest⟩⟩
  · simp [Fold.sole]
  · cases stmt with
    | branch _ _ condition yes no =>
      rw [Fold.sole, Fold.stmt]
      split <;> simp_all
    | _ => simp [Fold.sole, Fold.stmt]
  · simp [Fold.sole]

/-- **Folding is exact.** A well typed term without doubles that folds means its
value and nothing else, and every part of it that means an integer means one
that fits. It does not fold if and only if some part of it is in the way. A
block folds as its only expression does, or as the arm that its only branch
takes, whatever the other arm is.

Folding goes through the term as the rules do, with integers that fit in the
place of integers. By recursion on the term the value of each part is what the
part means, and an operator gives up on integers exactly if the result does not
fit. Every part of a term is folded before the term is. So if the term folds
then all parts do, and if there is an obstacle in it then the term does not. If
a well typed term does not fold then going down to a part that does not fold,
while all its own parts do, leads to an obstacle. -/
theorem folds_exactly (hknown : Agrees known Γ) (t : Term) (ht : t.WellTyped Γ)
    (hfree : t.FloatFree) :
    (∀ v, Fold.term known t = some v →
      (∀ e, Means known t e ↔ e = v.exact) ∧
        ∀ s ∈ t.subterms, ∀ n, Means known s (.int n) → Integer.inRange n = true) ∧
    (Fold.term known t = none ↔ ∃ s ∈ t.subterms, Obstacle known s) ∧
    ∀ b v, Fold.block known b = some v ↔
      (∃ e, b.stmts = [.eval e] ∧ Fold.term known e = some v) ∨
        ∃ span ty condition yes no chosen, b.stmts = [.branch span ty condition yes no] ∧
          Fold.term known condition = some (.bool chosen) ∧
          Fold.block known (if chosen then yes else no) = some v := by
  refine ⟨fun v hv => ⟨fun e => ⟨fun he => (exact_eq_of_means v e t hv he).symm, ?_⟩, ?_⟩,
    ⟨exists_obstacle hknown t ht hfree, ?_⟩, fun b v => block_eq_some_iff⟩
  · rintro rfl
    exact means_term hknown v t ht hfree hv
  · intro s hs n hn
    obtain ⟨w, hw⟩ := exists_of_mem_subterms v t hv hs
    exact inRange_of_means hw hn
  · rintro ⟨s, hs, hobstacle⟩
    refine Option.eq_none_iff_forall_ne_some.mpr fun v hv => ?_
    obtain ⟨w, hw⟩ := exists_of_mem_subterms v t hv hs
    exact absurd (term_eq_none_of_obstacle hobstacle) (by simp [hw])

/-- The built-ins and their types. -/
def builtinTypes (x : String) (ty : Ty) : Prop := ∃ b : Builtin, x = b.name ∧ ty = b.ty

theorem agrees_builtinTypes : Agrees [("Int", .type .int)] builtinTypes where
  values x v ty hv := by
    rintro ⟨b, rfl, rfl⟩
    cases b with
    | int => exact Option.some.inj hv ▸ .type .int
    | _ => cases hv
  builtins b ty := by
    rintro ⟨c, hname, rfl⟩
    have hsome := (congrArg Builtin.ofName? hname).symm.trans b.ofName?_name
    rw [Option.some.inj (c.ofName?_name.symm.trans hsome)]

/-- The largest integer and one, less one: the sum does not fit, the difference
would. -/
def beyond : Term :=
  ⟨⟨1, 1, 9⟩, .int, .binary .sub
    ⟨⟨1, 1, 5⟩, .int, .binary .add ⟨⟨1, 1, 1⟩, .int, .int Int64.maxValue⟩ ⟨⟨1, 5, 1⟩, .int, .int 1⟩⟩
    ⟨⟨1, 9, 1⟩, .int, .int 1⟩⟩

/-- The type of lists of integers is itself. -/
def listsAlike : Term :=
  let lists : Term := ⟨⟨1, 1, 9⟩, .type, .call
    ⟨⟨1, 1, 4⟩, .functionOf [.type] .type, .var "List" (.global "List")⟩
    [⟨⟨1, 6, 3⟩, .type, .var "Int" (.global "Int")⟩]⟩
  ⟨⟨1, 1, 22⟩, .bool, .binary .equal lists lists⟩

/-- The first does not fold although what it means would fit, and the second
folds to what it means. -/
theorem beyond_and_listsAlike_fold_exactly :
    (beyond.WellTyped builtinTypes ∧ beyond.FloatFree ∧
      Fold.term [("Int", .type .int)] beyond = none ∧
      ∃ s ∈ beyond.subterms, Obstacle [("Int", .type .int)] s) ∧
    (listsAlike.WellTyped builtinTypes ∧ listsAlike.FloatFree ∧
      ∀ e, Means [("Int", .type .int)] listsAlike e ↔ e = .bool true) := by
  have hbeyond : beyond.WellTyped builtinTypes := by
    simp [beyond, Term.WellTyped, Term.Node.WellTyped, Analysis.binaryTy, BinaryOp.group,
      Ty.isNumeric]
  have hlists : listsAlike.WellTyped builtinTypes := by
    have hlist : builtinTypes "List" (.functionOf [.type] .type) := ⟨.list, rfl, rfl⟩
    have hint : builtinTypes "Int" .type := ⟨.int, rfl, rfl⟩
    exact ⟨⟨hlist, ⟨hint, trivial⟩, _, rfl, rfl⟩, ⟨hlist, ⟨hint, trivial⟩, _, rfl, rfl⟩, rfl⟩
  have hnone : Fold.term [("Int", .type .int)] beyond = none := by decide +kernel
  have hints : beyond.FloatFree := by
    unfold Term.FloatFree
    decide +kernel
  have htypes : listsAlike.FloatFree := by
    unfold Term.FloatFree
    decide +kernel
  exact ⟨⟨hbeyond, hints, hnone,
      (folds_exactly agrees_builtinTypes beyond hbeyond hints).2.1.mp hnone⟩,
    hlists, htypes,
    ((folds_exactly agrees_builtinTypes listsAlike hlists htypes).1 _ rfl).1⟩

end Fold

end Stagewise
