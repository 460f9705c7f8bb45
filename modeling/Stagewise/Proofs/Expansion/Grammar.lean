import Mathlib.Data.List.Forall2
import Mathlib.Logic.Basic
import Stagewise.Expansion.Decode
import Stagewise.Proofs.Ty.Grammar

/-!
# The grammar of returned expressions

What data stands for an expression, by rules (`Expansion.Encodes`), as for
types. There is a rule for each form that an expander may return, and in all of
them the expression is where the invocation was. The rule for calls is the only
one whose result is not made of the expressions of its parts: the argument of a
call is one expression, and if that is a tuple then the call has the elements of
the tuple for arguments.

The reader accepts what the rules derive (`decodeExpr_eq_ok_iff`).
-/

namespace Stagewise.Expansion

open Source (Expr)

/-- **Data stands for an expression** that is placed at `span`. -/
inductive Encodes (ids : List Ty) (span : Span) : Data → Expr Empty → Prop where
  | int {fields : Data.Fields} {n : Int64} (tagged : Data.Tagged "IntegerLiteral" fields)
    (value : (fields.lookup "value" >>= Data.int64?) = some n) :
    Encodes ids span (.object fields) (.int span n)
  | float {fields : Data.Fields} {x : Float} (tagged : Data.Tagged "FloatLiteral" fields)
    (value : (fields.lookup "value" >>= Data.float?) = some x) :
    Encodes ids span (.object fields) (.float span x)
  | bool {fields : Data.Fields} {b : Bool} (tagged : Data.Tagged "BoolLiteral" fields)
    (value : (fields.lookup "value" >>= Data.bool?) = some b) :
    Encodes ids span (.object fields) (.bool span b)
  | string {fields : Data.Fields} {s : String} (tagged : Data.Tagged "StringLiteral" fields)
    (value : (fields.lookup "value" >>= Data.text?) = some s) :
    Encodes ids span (.object fields) (.string span s)
  | typeLiteral {fields : Data.Fields} {d : Data} {t : Ty}
    (tagged : Data.Tagged "TypeLiteral" fields) (value : fields.lookup "value" = some d)
    (encodes : Ty.Encodes ids d t) : Encodes ids span (.object fields) (.typeLiteral span t)
  | var {fields : Data.Fields} {name : String} (tagged : Data.Tagged "Variable" fields)
    (value : (fields.lookup "value" >>= Data.text?) = some name) :
    Encodes ids span (.object fields) (.var ⟨name, span⟩)
  | call {fields : Data.Fields} {f a : Data} {callee argument : Expr Empty}
    (tagged : Data.Tagged "FunctionCall" fields) (functionField : fields.lookup "function" = some f)
    (encodesCallee : Encodes ids span f callee)
    (argumentField : fields.lookup "argument" = some a)
    (encodesArgument : Encodes ids span a argument) :
    Encodes ids span (.object fields) (.call span callee (spread argument))
  | tuple {fields : Data.Fields} {items : List Data} {es : List (Expr Empty)}
    (tagged : Data.Tagged "TupleExpression" fields)
    (elements : fields.lookup "elements" = some (.array items))
    (each : List.Forall₂ (Encodes ids span) items es) :
    Encodes ids span (.object fields) (.tuple span es)
  | list {fields : Data.Fields} {items : List Data} {es : List (Expr Empty)}
    (tagged : Data.Tagged "ListExpression" fields)
    (elements : fields.lookup "elements" = some (.array items))
    (each : List.Forall₂ (Encodes ids span) items es) :
    Encodes ids span (.object fields) (.list span es)
  | unary {fields : Data.Fields} {op : UnaryOp} {d : Data} {operand : Expr Empty}
    (tagged : Data.Tagged "UnaryExpression" fields)
    (opField : (fields.lookup "op" >>= Data.text? >>= UnaryOp.ofText?) = some op)
    (operandField : fields.lookup "expression" = some d)
    (encodes : Encodes ids span d operand) :
    Encodes ids span (.object fields) (.unary span op operand)
  | binary {fields : Data.Fields} {op : BinaryOp} {l r : Data} {left right : Expr Empty}
    (tagged : Data.Tagged "BinaryExpression" fields)
    (opField : (fields.lookup "op" >>= Data.text? >>= BinaryOp.ofText?) = some op)
    (leftField : fields.lookup "left" = some l) (encodesLeft : Encodes ids span l left)
    (rightField : fields.lookup "right" = some r) (encodesRight : Encodes ids span r right) :
    Encodes ids span (.object fields) (.binary span op left right)

variable {ids : List Ty} {span : Span}

/-!
## What is read follows the rules

By cases on the tag, in the order in which the reader tries them. The functions
that read a list are in the same recursion.
-/

mutual

/-- **An expression that is read follows the rules.** -/
theorem encodes_of_decodeExpr {d : Data} {e : Expr Empty} (h : decodeExpr ids span d = .ok e) :
    Encodes ids span d e := by
  unfold decodeExpr at h
  split at h
  · cases h
  rename_i tag fields htagged
  obtain ⟨rfl, tagged⟩ := Data.tagged_eq_ok_iff.mp htagged
  -- the tags are told apart one by one: first literals, of values and of types
  obtain ⟨rfl, h⟩ | ⟨-, h⟩ := ite_eq_iff.mp h
  · split at h <;> cases h
    exact .int tagged ‹_›
  obtain ⟨rfl, h⟩ | ⟨-, h⟩ := ite_eq_iff.mp h
  · split at h <;> cases h
    exact .float tagged ‹_›
  obtain ⟨rfl, h⟩ | ⟨-, h⟩ := ite_eq_iff.mp h
  · split at h <;> cases h
    exact .bool tagged ‹_›
  obtain ⟨rfl, h⟩ | ⟨-, h⟩ := ite_eq_iff.mp h
  · split at h <;> cases h
    exact .string tagged ‹_›
  obtain ⟨rfl, h⟩ | ⟨-, h⟩ := ite_eq_iff.mp h
  · split at h
    · rename_i t ht
      obtain ⟨ty, hty, rfl⟩ := exists_of_map_eq_ok h
      exact .typeLiteral tagged ht (Ty.encodes_of_decode hty)
    · cases h
  obtain ⟨rfl, h⟩ | ⟨-, h⟩ := ite_eq_iff.mp h
  · split at h <;> cases h
    exact .var tagged ‹_›
  obtain ⟨rfl, h⟩ | ⟨-, h⟩ := ite_eq_iff.mp h
  · split at h
    · cases h
    rename_i f hf
    split at h
    · cases h
    rename_i callee hcallee
    split at h
    · cases h
    rename_i a ha
    have hlt := Data.sizeOf_field_lt htagged hf
    have hlt' := Data.sizeOf_field_lt htagged ha
    obtain ⟨argument, hargument, rfl⟩ := exists_of_map_eq_ok h
    exact .call tagged hf (encodes_of_decodeExpr hcallee) ha (encodes_of_decodeExpr hargument)
  obtain ⟨rfl, h⟩ | ⟨-, h⟩ := ite_eq_iff.mp h
  · split at h
    · rename_i items hitems
      have hlt := Data.sizeOf_items_lt htagged hitems
      obtain ⟨es, hes, rfl⟩ := exists_of_map_eq_ok h
      exact .tuple tagged hitems (encodes_of_decodeExprs hes)
    · cases h
  obtain ⟨rfl, h⟩ | ⟨-, h⟩ := ite_eq_iff.mp h
  · split at h
    · rename_i items hitems
      have hlt := Data.sizeOf_items_lt htagged hitems
      obtain ⟨es, hes, rfl⟩ := exists_of_map_eq_ok h
      exact .list tagged hitems (encodes_of_decodeExprs hes)
    · cases h
  obtain ⟨rfl, h⟩ | ⟨-, h⟩ := ite_eq_iff.mp h
  · split at h
    · cases h
    rename_i op hop
    split at h
    · cases h
    rename_i d hd
    have hlt := Data.sizeOf_field_lt htagged hd
    obtain ⟨operand, hoperand, rfl⟩ := exists_of_map_eq_ok h
    exact .unary tagged hop hd (encodes_of_decodeExpr hoperand)
  obtain ⟨rfl, h⟩ | ⟨-, h⟩ := ite_eq_iff.mp h
  · split at h
    · cases h
    rename_i op hop
    split at h
    · cases h
    rename_i l hl
    split at h
    · cases h
    rename_i left hleft
    split at h
    · cases h
    rename_i r hr
    have hlt := Data.sizeOf_field_lt htagged hl
    have hlt' := Data.sizeOf_field_lt htagged hr
    obtain ⟨right, hright, rfl⟩ := exists_of_map_eq_ok h
    exact .binary tagged hop hl (encodes_of_decodeExpr hleft) hr (encodes_of_decodeExpr hright)
  · cases h
termination_by sizeOf d

/-- Several expressions, in order. -/
theorem encodes_of_decodeExprs {items : List Data} {es : List (Expr Empty)}
    (h : decodeExprs ids span items = .ok es) : List.Forall₂ (Encodes ids span) items es := by
  unfold decodeExprs at h
  split at h
  · cases h
    exact .nil
  · rename_i d items
    split at h
    · cases h
    rename_i e he
    obtain ⟨es, hes, rfl⟩ := exists_of_map_eq_ok h
    exact .cons (encodes_of_decodeExpr he) (encodes_of_decodeExprs hes)
termination_by sizeOf items

end

/-!
## What follows the rules is read

The lemmas about single tags say what is read under each, given the fields that
are there. They leave the expressions inside to be read, and the theorem puts
them together along the derivation.
-/

variable {fields : Data.Fields}

/-- What is read of a type. -/
theorem decodeExpr_typeLiteral {d : Data} (tagged : Data.Tagged "TypeLiteral" fields)
    (value : fields.lookup "value" = some d) :
    decodeExpr ids span (.object fields) = .typeLiteral span <$> Ty.decode ids d := by
  unfold decodeExpr
  split <;> rename_i h <;> rw [tagged.tagged_eq] at h <;> cases h
  simp only [String.reduceEq, if_false, if_true, value]

/-- What is read of a call. The argument is only looked for if the function is
read. -/
theorem decodeExpr_call {f a : Data} {callee : Expr Empty}
    (tagged : Data.Tagged "FunctionCall" fields) (functionField : fields.lookup "function" = some f)
    (argumentField : fields.lookup "argument" = some a)
    (hcallee : decodeExpr ids span f = .ok callee) :
    decodeExpr ids span (.object fields)
      = (fun argument => .call span callee (spread argument)) <$> decodeExpr ids span a := by
  rw [decodeExpr]
  split <;> rename_i h <;> rw [tagged.tagged_eq] at h <;> cases h
  simp only [String.reduceEq, if_false, if_true]
  split <;> rename_i h <;> rw [functionField] at h <;> cases h
  simp only [hcallee]
  split <;> rename_i h <;> rw [argumentField] at h <;> cases h
  rfl

/-- What is read of a list of expressions. -/
theorem decodeExpr_elements {tag : String} {make : List (Expr Empty) → Expr Empty}
    (htag : tag = "TupleExpression" ∧ make = .tuple span ∨
      tag = "ListExpression" ∧ make = .list span)
    {items : List Data} (tagged : Data.Tagged tag fields)
    (elements : fields.lookup "elements" = some (.array items)) :
    decodeExpr ids span (.object fields) = make <$> decodeExprs ids span items := by
  unfold decodeExpr
  split <;> rename_i h <;> rw [tagged.tagged_eq] at h <;> cases h
  obtain ⟨rfl, rfl⟩ | ⟨rfl, rfl⟩ := htag
  all_goals
    simp only [String.reduceEq, if_false, if_true]
    split <;> rename_i h
    · rw [elements] at h
      cases h
      rfl
    · exact absurd elements (h items)

/-- What is read of one operand. -/
theorem decodeExpr_unary {op : UnaryOp} {d : Data} (tagged : Data.Tagged "UnaryExpression" fields)
    (opField : (fields.lookup "op" >>= Data.text? >>= UnaryOp.ofText?) = some op)
    (operandField : fields.lookup "expression" = some d) :
    decodeExpr ids span (.object fields) = .unary span op <$> decodeExpr ids span d := by
  rw [decodeExpr]
  split <;> rename_i h <;> rw [tagged.tagged_eq] at h <;> cases h
  simp only [String.reduceEq, if_false, if_true, opField]
  split <;> rename_i h <;> rw [operandField] at h <;> cases h
  rfl

/-- What is read of two operands. The second is only looked for if the first is
read. -/
theorem decodeExpr_binary {op : BinaryOp} {l r : Data} {left : Expr Empty}
    (tagged : Data.Tagged "BinaryExpression" fields)
    (opField : (fields.lookup "op" >>= Data.text? >>= BinaryOp.ofText?) = some op)
    (leftField : fields.lookup "left" = some l) (rightField : fields.lookup "right" = some r)
    (hleft : decodeExpr ids span l = .ok left) :
    decodeExpr ids span (.object fields) = .binary span op left <$> decodeExpr ids span r := by
  rw [decodeExpr]
  split <;> rename_i h <;> rw [tagged.tagged_eq] at h <;> cases h
  simp only [String.reduceEq, if_false, if_true, opField]
  split <;> rename_i h <;> rw [leftField] at h <;> cases h
  simp only [hleft]
  split <;> rename_i h <;> rw [rightField] at h <;> cases h
  rfl

mutual

/-- **An expression that follows the rules is read.** -/
theorem decodeExpr_of_encodes {d : Data} {e : Expr Empty} (h : Encodes ids span d e) :
    decodeExpr ids span d = .ok e := by
  cases h with
  | int tagged value | float tagged value | bool tagged value | string tagged value
  | var tagged value =>
    unfold decodeExpr
    split <;> rename_i h <;> rw [tagged.tagged_eq] at h <;> cases h
    simp only [String.reduceEq, if_false, if_true, value]
  | typeLiteral tagged value encodes =>
    rw [decodeExpr_typeLiteral tagged value, Ty.decode_of_encodes encodes]
    rfl
  | call tagged functionField encodesCallee argumentField encodesArgument =>
    have hlt := Data.sizeOf_lookup_lt functionField
    have hlt' := Data.sizeOf_lookup_lt argumentField
    rw [decodeExpr_call tagged functionField argumentField (decodeExpr_of_encodes encodesCallee),
      decodeExpr_of_encodes encodesArgument]
    rfl
  | tuple tagged elements each =>
    have hlt := Data.sizeOf_lookup_array_lt elements
    rw [decodeExpr_elements (.inl ⟨rfl, rfl⟩) tagged elements, decodeExprs_of_encodes each]
    rfl
  | list tagged elements each =>
    have hlt := Data.sizeOf_lookup_array_lt elements
    rw [decodeExpr_elements (.inr ⟨rfl, rfl⟩) tagged elements, decodeExprs_of_encodes each]
    rfl
  | unary tagged opField operandField encodes =>
    have hlt := Data.sizeOf_lookup_lt operandField
    rw [decodeExpr_unary tagged opField operandField, decodeExpr_of_encodes encodes]
    rfl
  | binary tagged opField leftField encodesLeft rightField encodesRight =>
    have hlt := Data.sizeOf_lookup_lt leftField
    have hlt' := Data.sizeOf_lookup_lt rightField
    rw [decodeExpr_binary tagged opField leftField rightField (decodeExpr_of_encodes encodesLeft),
      decodeExpr_of_encodes encodesRight]
    rfl
termination_by sizeOf d
decreasing_by all_goals first | exact hlt | exact hlt'

/-- Several expressions that follow the rules are read one by one. -/
theorem decodeExprs_of_encodes {items : List Data} {es : List (Expr Empty)}
    (h : List.Forall₂ (Encodes ids span) items es) : decodeExprs ids span items = .ok es := by
  cases h with
  | nil =>
    unfold decodeExprs
    rfl
  | cons first others =>
    rw [decodeExprs, decodeExpr_of_encodes first]
    dsimp only
    rw [decodeExprs_of_encodes others]
    rfl
termination_by sizeOf items

end

/-- **The reader of expressions accepts what the rules derive.**

The reader is deterministic and the rules are not made to be, but there is at
most one expression that data stands for, namely the one that is read. -/
theorem decodeExpr_eq_ok_iff {d : Data} {e : Expr Empty} :
    decodeExpr ids span d = .ok e ↔ Encodes ids span d e :=
  ⟨encodes_of_decodeExpr, decodeExpr_of_encodes⟩

end Stagewise.Expansion
