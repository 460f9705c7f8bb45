import Stagewise.Source.Tree
import Stagewise.Ty.Pool
import Stagewise.Value.Tagged

/-!
# What an expander returns

An expander answers with a pair: a message, empty if all went well, and an
expression as a tree of tagged nodes. `Expansion.decodeExpr` reads such a tree.
It has no form for closures, and none for further text to expand, so what it
reads is a tree over `Empty`. Every node is placed where the invocation was.

A call holds one argument. If that is a tuple the call has its elements for
arguments, and otherwise the call has one argument.
-/

namespace Stagewise.Expansion

open Source (Expr)

/-- The arguments of a call that holds this argument. -/
def spread : Expr Empty → List (Expr Empty)
  | .tuple _ elements => elements
  | e => [e]

mutual

/-- **The expression that tagged data stands for**, placed at `span`. -/
def decodeExpr (ids : List Ty) (span : Span) (d : Data) : Except DecodeError (Expr Empty) :=
  match _h : d.tagged with
  | .error e => .error e
  | .ok (tag, fields) =>
    if tag = "IntegerLiteral" then
      match fields.lookup "value" >>= Data.int64? with
      | some n => .ok (.int span n)
      | none => .error (.badField tag "value")
    else if tag = "FloatLiteral" then
      match fields.lookup "value" >>= Data.float? with
      | some x => .ok (.float span x)
      | none => .error (.badField tag "value")
    else if tag = "BoolLiteral" then
      match fields.lookup "value" >>= Data.bool? with
      | some b => .ok (.bool span b)
      | none => .error (.badField tag "value")
    else if tag = "StringLiteral" then
      match fields.lookup "value" >>= Data.text? with
      | some s => .ok (.string span s)
      | none => .error (.badField tag "value")
    else if tag = "TypeLiteral" then
      match fields.lookup "value" with
      | some t => .typeLiteral span <$> Ty.decode ids t
      | none => .error (.badField tag "value")
    else if tag = "Variable" then
      match fields.lookup "value" >>= Data.text? with
      | some name => .ok (.var ⟨name, span⟩)
      | none => .error (.badField tag "value")
    else if tag = "FunctionCall" then
      match _k : fields.lookup "function" with
      | none => .error (.badField tag "function")
      | some f =>
        match decodeExpr ids span f with
        | .error e => .error e
        | .ok callee =>
          match _k : fields.lookup "argument" with
          | none => .error (.badField tag "argument")
          | some a =>
            (fun argument => .call span callee (spread argument)) <$> decodeExpr ids span a
    else if tag = "TupleExpression" then
      match _k : fields.lookup "elements" with
      | some (.array items) => .tuple span <$> decodeExprs ids span items
      | _ => .error (.badField tag "elements")
    else if tag = "ListExpression" then
      match _k : fields.lookup "elements" with
      | some (.array items) => .list span <$> decodeExprs ids span items
      | _ => .error (.badField tag "elements")
    else if tag = "UnaryExpression" then
      match fields.lookup "op" >>= Data.text? >>= UnaryOp.ofText? with
      | none => .error (.badField tag "op")
      | some op =>
        match _k : fields.lookup "expression" with
        | none => .error (.badField tag "expression")
        | some e => .unary span op <$> decodeExpr ids span e
    else if tag = "BinaryExpression" then
      match fields.lookup "op" >>= Data.text? >>= BinaryOp.ofText? with
      | none => .error (.badField tag "op")
      | some op =>
        match _k : fields.lookup "left" with
        | none => .error (.badField tag "left")
        | some l =>
          match decodeExpr ids span l with
          | .error e => .error e
          | .ok left =>
            match _k : fields.lookup "right" with
            | none => .error (.badField tag "right")
            | some r => .binary span op left <$> decodeExpr ids span r
    else .error (.unknownTag tag)
termination_by sizeOf d
decreasing_by
  all_goals first | exact Data.sizeOf_field_lt _h _k | exact Data.sizeOf_items_lt _h _k

/-- The expressions that a list of tagged data stands for; the first failure
counts. -/
def decodeExprs (ids : List Ty) (span : Span) (items : List Data) :
    Except DecodeError (List (Expr Empty)) :=
  match items with
  | [] => .ok []
  | d :: items =>
    match decodeExpr ids span d with
    | .error e => .error e
    | .ok e => (e :: ·) <$> decodeExprs ids span items
termination_by sizeOf items

end

/-- **The message and the expression that an expander returned.** -/
def decode (ids : List Ty) (span : Span) (d : Data) : Except DecodeError (String × Expr Empty) := do
  let (tag, fields) ← d.tagged
  if tag ≠ "Tuple" then throw (.unknownTag tag)
  match fields.lookup "elements" with
  | some (.array [message, expression]) =>
    match ← Value.decode ids message with
    | .string message => return (message, ← decodeExpr ids span expression)
    | _ => throw (.badField tag "elements")
  | _ => throw (.badField tag "elements")

end Stagewise.Expansion
