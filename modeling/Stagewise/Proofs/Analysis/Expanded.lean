import Stagewise.Analysis.Declarations

/-!
# What is expanded is not expanded again

An expander returns a tree over `Empty`, which has nothing to expand. Such a
tree can also be read as one of the source (`Source.Expr.lift`). If the
expander's tree is checked as if it stood in the source, then whatever is there
to expand text does not come up (`infer_lift`).

This is why it does not matter who checks an expanded tree. The analysis does it
with an expansion that cannot be called, as there is nothing in `Empty` to call
it with, and the result is that of checking the lifted tree with the expansion
of the source. So an expansion is not looked at again for something to expand:
there is no place in the tree where it could be.
-/

namespace Stagewise

namespace Source

variable {μ : Type}

mutual

/-- **A tree with nothing to expand, as one that could have something.** -/
def Expr.lift : Expr Empty → Expr μ
  | .int span n => .int span n
  | .float span x => .float span x
  | .bool span b => .bool span b
  | .string span s => .string span s
  | .typeLiteral span t => .typeLiteral span t
  | .var name => .var name
  | .call span callee arguments => .call span callee.lift (liftAll arguments)
  | .tuple span elements => .tuple span (liftAll elements)
  | .list span elements => .list span (liftAll elements)
  | .unary span op operand => .unary span op operand.lift
  | .binary span op left right => .binary span op left.lift right.lift
  | .expand _ m => m.elim
  | .closure span params result body => .closure span (liftParams params) result.lift body.lift

/-- The same for several expressions. -/
def liftAll : List (Expr Empty) → List (Expr μ)
  | [] => []
  | e :: es => e.lift :: liftAll es

/-- The same for parameters. -/
def liftParams : List (Param (Expr Empty)) → List (Param (Expr μ))
  | [] => []
  | p :: ps => ⟨p.name, p.ascription.lift⟩ :: liftParams ps

/-- The same for a block. -/
def Block.lift : Block Empty → Block μ
  | ⟨span, stmts⟩ => ⟨span, liftStmts stmts⟩

/-- The same for statements. -/
def liftStmts : List (Stmt Empty) → List (Stmt μ)
  | [] => []
  | s :: rest => s.lift :: liftStmts rest

/-- The same for a statement. -/
def Stmt.lift : Stmt Empty → Stmt μ
  | .bind span name ascription body => .bind span name ascription.lift body.lift
  | .assign span target op body => .assign span target op body.lift
  | .branch span condition yes no => .branch span condition.lift yes.lift no.lift
  | .eval e => .eval e.lift

end

/-- A tree stays where it stands. -/
theorem Expr.span_lift (e : Expr Empty) : (e.lift : Expr μ).span = e.span := by
  cases e with
  | expand span m => exact m.elim
  | _ => unfold Expr.lift; rfl

/-- None is lost, and none is added. -/
theorem length_liftAll (es : List (Expr Empty)) :
    (liftAll es : List (Expr μ)).length = es.length := by
  induction es with
  | nil => unfold liftAll; rfl
  | cons e es ih => rw [liftAll, List.length_cons, List.length_cons, ih]

theorem isEmpty_liftStmts (stmts : List (Stmt Empty)) :
    (liftStmts stmts : List (Stmt μ)).isEmpty = stmts.isEmpty := by
  cases stmts <;> unfold liftStmts <;> rfl

end Source

namespace Analysis

open Source (Expr Stmt Param)

variable {β μ : Type} {ctx : Context β} {demand : String → Check β Ty}
  {expand : Span → μ → Option Ty → Check β Term} {nothing : Span → Empty → Option Ty → Check β Term}

mutual

/-- **A tree that was expanded is checked alike** wherever it stands, whatever
there is to expand text. -/
theorem infer_lift (e : Expr Empty) (hint : Option Ty) :
    infer ctx demand expand e.lift hint = infer ctx demand nothing e hint := by
  cases e with
  | int | float | bool | string | typeLiteral | var => unfold Expr.lift infer; rfl
  | call span callee arguments =>
    rw [Expr.lift, infer, infer, infer_lift callee]
    simp only [Source.length_liftAll, inferArguments_lift arguments]
  | tuple span elements =>
    rw [Expr.lift, infer, infer, Source.length_liftAll, inferEach_lift elements]
  | list span elements => rw [Expr.lift, infer, infer, inferElements_lift elements]
  | unary span op operand => rw [Expr.lift, infer, infer, infer_lift operand]
  | binary span op left right =>
    rw [Expr.lift, infer, infer, infer_lift left]
    simp only [infer_lift right]
  | expand span m => exact m.elim
  | closure span params result body =>
    rw [Expr.lift, infer, infer, inferParams_lift params, infer_lift result, Expr.span_lift]
    simp only [checkBlock_lift body]
termination_by structural e

/-- Arguments are checked alike, by induction on them. -/
theorem inferArguments_lift (es : List (Expr Empty)) (ts : List Ty) :
    inferArguments ctx demand expand (Source.liftAll es) ts
      = inferArguments ctx demand nothing es ts := by
  match es, ts with
  | e :: es, t :: ts =>
    rw [Source.liftAll, inferArguments, inferArguments, infer_lift e]
    simp only [inferArguments_lift es]
  | [], _ => unfold Source.liftAll inferArguments; rfl
  | _ :: _, [] => unfold Source.liftAll inferArguments; rfl
termination_by structural es

theorem inferEach_lift (es : List (Expr Empty)) (hints : List (Option Ty)) :
    inferEach ctx demand expand (Source.liftAll es) hints
      = inferEach ctx demand nothing es hints := by
  match es, hints with
  | e :: es, hint :: hints =>
    rw [Source.liftAll, inferEach, inferEach, infer_lift e]
    simp only [inferEach_lift es]
  | [], _ => unfold Source.liftAll inferEach; rfl
  | _ :: _, [] => unfold Source.liftAll inferEach; rfl
termination_by structural es

/-- So are the elements of a list, with the hint that the first has left for the
rest. -/
theorem inferElements_lift (es : List (Expr Empty)) (ty : Option Ty) :
    inferElements ctx demand expand (Source.liftAll es) ty
      = inferElements ctx demand nothing es ty := by
  match es, ty with
  | [], _ => unfold Source.liftAll inferElements; rfl
  | e :: es, none =>
    rw [Source.liftAll, inferElements, inferElements, infer_lift e]
    simp only [inferElements_lift es]
  | e :: es, some t =>
    rw [Source.liftAll, inferElements, inferElements, infer_lift e]
    simp only [inferElements_lift es]
termination_by structural es

theorem inferParams_lift (ps : List (Param (Expr Empty))) :
    inferParams ctx demand expand (Source.liftParams ps) = inferParams ctx demand nothing ps := by
  match ps with
  | [] => unfold Source.liftParams inferParams; rfl
  | ⟨name, ascription⟩ :: ps =>
    rw [Source.liftParams, inferParams, inferParams, infer_lift ascription, Expr.span_lift,
      inferParams_lift ps]
termination_by structural ps

/-- A block is checked alike. -/
theorem checkBlock_lift (b : Source.Block Empty) (hint : Option Ty) :
    checkBlock ctx demand expand b.lift hint = checkBlock ctx demand nothing b hint := by
  match b with
  | ⟨span, stmts⟩ => rw [Source.Block.lift, checkBlock, checkBlock, checkStmts_lift stmts]
termination_by structural b

/-- So are its statements. Whether there are any decides on what the block is,
and this is not changed by lifting them. -/
theorem checkStmts_lift (stmts : List (Stmt Empty)) (hint : Option Ty) :
    checkStmts ctx demand expand (Source.liftStmts stmts) hint
      = checkStmts ctx demand nothing stmts hint := by
  match stmts with
  | [] => unfold Source.liftStmts checkStmts; rfl
  | stmt :: rest =>
    rw [Source.liftStmts, checkStmts, checkStmts, checkStmt_lift stmt, checkStmts_lift rest,
      Source.isEmpty_liftStmts]
termination_by structural stmts

/-- A statement is checked alike. It is the only kind of tree other than an
expression that has expressions in it as well as blocks. -/
theorem checkStmt_lift (stmt : Stmt Empty) (hint : Option Ty) :
    checkStmt ctx demand expand stmt.lift hint = checkStmt ctx demand nothing stmt hint := by
  match stmt with
  | .bind span name ascription body =>
    rw [Source.Stmt.lift, checkStmt, checkStmt, infer_lift ascription, Expr.span_lift]
    simp only [checkBlock_lift body]
  | .assign span target op body =>
    rw [Source.Stmt.lift, checkStmt, checkStmt]
    simp only [checkBlock_lift body]
  | .branch span condition yes no =>
    rw [Source.Stmt.lift, checkStmt, checkStmt, infer_lift condition]
    simp only [checkBlock_lift yes, checkBlock_lift no]
  | .eval e => rw [Source.Stmt.lift, checkStmt, checkStmt, infer_lift e]
termination_by structural stmt

end

end Analysis

end Stagewise
