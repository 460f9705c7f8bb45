import Stagewise.Proofs.Data.Proper
import Stagewise.Proofs.Expansion.Grammar
import Stagewise.Proofs.Value.RoundTrip

/-!
# What expanders can return

The expressions that an expander can return are those without closures and
without text to expand, all in one place, whose doubles are finite
(`Source.Expr.FirstOrder`). Nothing else is ever read, and each of them is read
from some data (`returns_first_order`).

For calls the second half needs a choice of the argument. An argument that is a
tuple is spread over the call, so the arguments of a call cannot be given as
they are: if there is one and it is a tuple, the call would have its elements
instead. They are given as a tuple of arguments however many there are, and that
tuple is the one that is spread.
-/

namespace Stagewise

open Source (Expr)

/-- **An expression of the first order**, all of it at `span`: there are no
closures in it and no text to expand, and its doubles are finite. -/
inductive Source.Expr.FirstOrder {μ : Type} (span : Span) : Expr μ → Prop
  | int (n : Int64) : FirstOrder span (.int span n)
  | float {x : Float} (finite : x.isFinite = true) : FirstOrder span (.float span x)
  | bool (b : Bool) : FirstOrder span (.bool span b)
  | string (s : String) : FirstOrder span (.string span s)
  | typeLiteral (t : Ty) : FirstOrder span (.typeLiteral span t)
  | var (name : String) : FirstOrder span (.var ⟨name, span⟩)
  | call {callee : Expr μ} {arguments : List (Expr μ)} (first : FirstOrder span callee)
    (each : ∀ e ∈ arguments, FirstOrder span e) : FirstOrder span (.call span callee arguments)
  | tuple {elements : List (Expr μ)} (each : ∀ e ∈ elements, FirstOrder span e) :
    FirstOrder span (.tuple span elements)
  | list {elements : List (Expr μ)} (each : ∀ e ∈ elements, FirstOrder span e) :
    FirstOrder span (.list span elements)
  | unary (op : UnaryOp) {operand : Expr μ} (h : FirstOrder span operand) :
    FirstOrder span (.unary span op operand)
  | binary (op : BinaryOp) {left right : Expr μ} (first : FirstOrder span left)
    (second : FirstOrder span right) : FirstOrder span (.binary span op left right)

/-!
## Proper nodes

To give data for an expression is to give a proper tree, so the nodes that stand
for its forms have their keys in order.
-/

namespace Data

/-- A node is proper if its keys are in order, after that of the tag. -/
theorem proper_node {tag : String} {fields : Fields} (keys : List String)
    (hkeys : fields.map Prod.fst = keys) (ordered : (tagKey :: keys).Pairwise (· < ·))
    (each : ∀ d ∈ fields.map Prod.snd, d.Proper) : (node tag fields).Proper := by
  subst hkeys
  refine .object (List.pairwise_map.mp ordered) (List.forall_mem_cons.mpr ⟨.string tag, ?_⟩)
  exact fun f hf => each f.2 (List.mem_map_of_mem hf)

/-- A node that holds one proper value is proper. -/
theorem proper_value {tag : String} {d : Data} (h : d.Proper) :
    (node tag [("value", d)]).Proper :=
  proper_node ["value"] rfl (by decide) (List.forall_mem_singleton.mpr h)

/-- A node that holds a list of proper values is proper. -/
theorem proper_elements {tag : String} {items : List Data} (h : ∀ d ∈ items, d.Proper) :
    (node tag [("elements", .array items)]).Proper :=
  proper_node ["elements"] rfl (by decide) (List.forall_mem_singleton.mpr (.array h))

/-- An integer of the program fits. -/
theorem proper_ofInt (n : Int64) : (ofInt n.toInt).Proper :=
  .number ⟨n.le_toInt, n.toInt_lt.trans (by decide)⟩

end Data

namespace Ty

mutual

/-- What is written for a type is proper. -/
theorem proper_encode (t : Ty) : t.encode.Proper := by
  cases t with
  | type | int | float | bool | string | nil => exact Data.proper_node [] rfl (by decide) (by simp)
  | tuple elements => exact Data.proper_elements (proper_encodeAll elements)
  | list element =>
    exact Data.proper_node ["element"] rfl (by decide)
      (List.forall_mem_singleton.mpr (proper_encode element))
  | fn argument result =>
    exact Data.proper_node ["argument", "return"] rfl (by decide)
      (List.forall_mem_cons.mpr ⟨proper_encode argument,
        List.forall_mem_singleton.mpr (proper_encode result)⟩)
  | struct name =>
    exact Data.proper_node ["name"] rfl (by decide) (List.forall_mem_singleton.mpr (.string name))

/-- What is written for several types. -/
theorem proper_encodeAll (ts : List Ty) : ∀ d ∈ encodeAll ts, d.Proper := by
  cases ts with
  | nil => exact fun d hd => absurd hd List.not_mem_nil
  | cons t ts => exact List.forall_mem_cons.mpr ⟨proper_encode t, proper_encodeAll ts⟩

end

end Ty

/-- An operator is read back from its text. -/
theorem UnaryOp.ofText?_text (op : UnaryOp) : ofText? op.text = some op := by cases op <;> rfl

/-- An operator is read back from its text. -/
theorem BinaryOp.ofText?_text (op : BinaryOp) : ofText? op.text = some op := by cases op <;> rfl

namespace Expansion

variable {ids : List Ty} {span : Span}

/-!
## What is read

By the rules, with one case for each of them. A number is a finite double
because the data is proper, and the place of the expression is always that of
the invocation.
-/

/-- The arguments of a call are of the first order if its argument is. -/
theorem firstOrder_spread {e : Expr Empty} (h : e.FirstOrder span) :
    ∀ e' ∈ spread e, e'.FirstOrder span := by
  unfold spread
  split
  · cases h with
    | tuple each => exact each
  · exact List.forall_mem_singleton.mpr h

mutual

/-- **What proper data stands for is of the first order.** -/
theorem firstOrder_of_encodes {d : Data} {e : Expr Empty} (h : Encodes ids span d e) :
    d.Proper → e.FirstOrder span := by
  cases h with
  | int tagged value => exact fun _ => .int _
  | float tagged value =>
    intro hd
    obtain ⟨v, hv, hx⟩ := Option.bind_eq_some_iff.mp value
    have hproper := hd.lookup hv
    cases hproper with
    | number hn =>
      cases hx
      exact .float (Number.isFinite_toFloat hn)
    | null | bool | string | array | object => cases hx
  | bool tagged value => exact fun _ => .bool _
  | string tagged value => exact fun _ => .string _
  | typeLiteral tagged value encodes => exact fun _ => .typeLiteral _
  | var tagged value => exact fun _ => .var _
  | call tagged functionField encodesCallee argumentField encodesArgument =>
    intro hd
    have hlt := Data.sizeOf_lookup_lt functionField
    have hlt' := Data.sizeOf_lookup_lt argumentField
    exact .call (firstOrder_of_encodes encodesCallee (hd.lookup functionField))
      (firstOrder_spread (firstOrder_of_encodes encodesArgument (hd.lookup argumentField)))
  | tuple tagged elements each =>
    intro hd
    have hlt := Data.sizeOf_lookup_array_lt elements
    exact .tuple (firstOrder_of_forall₂ each (hd.lookup elements).forall_mem)
  | list tagged elements each =>
    intro hd
    have hlt := Data.sizeOf_lookup_array_lt elements
    exact .list (firstOrder_of_forall₂ each (hd.lookup elements).forall_mem)
  | unary tagged opField operandField encodes =>
    intro hd
    have hlt := Data.sizeOf_lookup_lt operandField
    exact .unary _ (firstOrder_of_encodes encodes (hd.lookup operandField))
  | binary tagged opField leftField encodesLeft rightField encodesRight =>
    intro hd
    have hlt := Data.sizeOf_lookup_lt leftField
    have hlt' := Data.sizeOf_lookup_lt rightField
    exact .binary _ (firstOrder_of_encodes encodesLeft (hd.lookup leftField))
      (firstOrder_of_encodes encodesRight (hd.lookup rightField))
termination_by sizeOf d
decreasing_by all_goals first | exact hlt | exact hlt'

/-- The items of a list are read one by one. -/
theorem firstOrder_of_forall₂ {items : List Data} {es : List (Expr Empty)}
    (h : List.Forall₂ (Encodes ids span) items es) (hitems : ∀ d ∈ items, d.Proper) :
    ∀ e ∈ es, e.FirstOrder span := by
  cases h with
  | nil => exact fun e he => absurd he List.not_mem_nil
  | cons first others =>
    obtain ⟨hd, hitems⟩ := List.forall_mem_cons.mp hitems
    exact List.forall_mem_cons.mpr
      ⟨firstOrder_of_encodes first hd, firstOrder_of_forall₂ others hitems⟩
termination_by sizeOf items

end

/-!
## What can be returned

For every expression of the first order there is data that is read as it, built
up as the expression is.
-/

/-- Data for each of several expressions is a list of data for them all. -/
theorem exists_items {es : List (Expr Empty)}
    (h : ∀ e ∈ es, ∃ d : Data, d.Proper ∧ Encodes ids span d e) :
    ∃ items : List Data, (∀ d ∈ items, d.Proper) ∧ List.Forall₂ (Encodes ids span) items es := by
  induction es with
  | nil => exact ⟨[], fun d hd => absurd hd List.not_mem_nil, .nil⟩
  | cons e es ih =>
    obtain ⟨⟨d, hd, he⟩, hes⟩ := List.forall_mem_cons.mp h
    obtain ⟨items, hitems, heach⟩ := ih hes
    exact ⟨d :: items, List.forall_mem_cons.mpr ⟨hd, hitems⟩, .cons he heach⟩

/-- **Data for each expression of the first order.** -/
theorem exists_encodes {e : Expr Empty} (h : e.FirstOrder span) :
    ∃ d : Data, d.Proper ∧ Encodes ids span d e := by
  induction h with
  | int n =>
    exact ⟨_, Data.proper_value (Data.proper_ofInt n), .int rfl (Integer.fit_toInt n)⟩
  | @float x finite =>
    exact ⟨_, Data.proper_value (.number (n := .double x finite) trivial), .float rfl rfl⟩
  | bool b => exact ⟨_, Data.proper_value (.bool b), .bool rfl rfl⟩
  | string s => exact ⟨_, Data.proper_value (.string s), .string rfl rfl⟩
  | typeLiteral t =>
    exact ⟨_, Data.proper_value t.proper_encode, .typeLiteral rfl rfl t.encodes_encode⟩
  | var name => exact ⟨_, Data.proper_value (.string name), .var rfl rfl⟩
  | @call callee arguments first each ihcallee iheach =>
    obtain ⟨f, hf, hcallee⟩ := ihcallee
    obtain ⟨items, hitems, heach⟩ := exists_items iheach
    -- the arguments go into a tuple, also when there is one of them and it is a tuple itself
    obtain ⟨a, ha, hargument⟩ : ∃ a : Data, a.Proper ∧ Encodes ids span a (.tuple span arguments) :=
      ⟨_, Data.proper_elements hitems, .tuple rfl rfl heach⟩
    have hcall : Encodes ids span (.node "FunctionCall" [("argument", a), ("function", f)])
        (.call span callee (spread (.tuple span arguments))) :=
      .call rfl rfl hcallee rfl hargument
    refine ⟨_, Data.proper_node ["argument", "function"] rfl (by decide) ?_, hcall⟩
    exact List.forall_mem_cons.mpr ⟨ha, List.forall_mem_singleton.mpr hf⟩
  | tuple each iheach =>
    obtain ⟨items, hitems, heach⟩ := exists_items iheach
    exact ⟨_, Data.proper_elements hitems, .tuple rfl rfl heach⟩
  | list each iheach =>
    obtain ⟨items, hitems, heach⟩ := exists_items iheach
    exact ⟨_, Data.proper_elements hitems, .list rfl rfl heach⟩
  | unary op h ih =>
    obtain ⟨d, hd, hoperand⟩ := ih
    refine ⟨.node "UnaryExpression" [("expression", d), ("op", .string op.text)],
      Data.proper_node ["expression", "op"] rfl (by decide) ?_,
      .unary rfl op.ofText?_text rfl hoperand⟩
    exact List.forall_mem_cons.mpr ⟨hd, List.forall_mem_singleton.mpr (.string _)⟩
  | binary op first second ihleft ihright =>
    obtain ⟨l, hl, hleft⟩ := ihleft
    obtain ⟨r, hr, hright⟩ := ihright
    refine ⟨.node "BinaryExpression" [("left", l), ("op", .string op.text), ("right", r)],
      Data.proper_node ["left", "op", "right"] rfl (by decide) ?_,
      .binary rfl op.ofText?_text rfl hleft rfl hright⟩
    exact List.forall_mem_cons.mpr
      ⟨hl, List.forall_mem_cons.mpr ⟨.string _, List.forall_mem_singleton.mpr hr⟩⟩

/-- **The expressions that are read are those of the first order**, at the place
of the invocation: all data, whatever types are known by number, stands for such
an expression if it stands for any, and there is data for each of them.

What is read follows the rules of the grammar, and no rule has a closure or a
text to expand for its result. Conversely each form of the first order is the
result of a rule. For calls this needs the arguments to be in a tuple, which the
call then spreads: so any list of arguments can be had, also one of a single
tuple, which could not be given as it is. -/
theorem returns_first_order (ids : List Ty) (span : Span) (e : Expr Empty) :
    (∃ d : Data, d.Proper ∧ decodeExpr ids span d = .ok e) ↔ e.FirstOrder span := by
  simp only [decodeExpr_eq_ok_iff]
  exact ⟨fun ⟨_, hd, he⟩ => firstOrder_of_encodes he hd, exists_encodes⟩

end Expansion

end Stagewise
