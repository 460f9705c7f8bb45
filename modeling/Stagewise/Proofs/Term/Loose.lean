import Mathlib.Data.List.Basic
import Stagewise.Proofs.Term.Rules

/-!
# Loose locals

A term may mention locals that it does not bind: it was written inside a
function, a closure or a block, and what these have in scope is not part of it.
They are **loose** in the term. A term without any is closed, and means the same
wherever it is read.

Loose locals are found in the environment of a term that obeys the typing rules
(`Term.Typed.of_mem_loose`).
-/

namespace Stagewise

namespace Term

/-- The locals that a statement introduces, for the statements after it. -/
def Stmt.locals : Stmt → List String
  | .bind _ name _ _ => [name.text]
  | .assign _ _ _ _ | .branch _ _ _ _ _ | .eval _ => []

mutual

/-- **The locals that are loose in a term**, in order, where `bound` are bound
around it. -/
def loose (bound : List String) : Term → List String
  | ⟨_, _, node⟩ => node.loose bound

/-- The locals that are loose in a node. -/
def Node.loose (bound : List String) : Node → List String
  | .int _ | .float _ | .bool _ | .string _ | .value _ => []
  | .var _ (.global _) => []
  | .var name (.lexical _) => [name].filter (· ∉ bound)
  | .call callee arguments => callee.loose bound ++ looseAll bound arguments
  | .tuple elements | .list elements => looseAll bound elements
  | .unary _ operand => operand.loose bound
  | .binary _ left right => left.loose bound ++ right.loose bound
  | .closure params _ body => body.loose (params.map (·.1) ++ bound)

/-- The locals that are loose in several terms. -/
def looseAll (bound : List String) : List Term → List String
  | [] => []
  | t :: ts => t.loose bound ++ looseAll bound ts

/-- The locals that are loose in a block. -/
def Block.loose (bound : List String) : Block → List String
  | ⟨_, _, stmts⟩ => looseStmts bound stmts

/-- The locals that are loose in a sequence of statements. -/
def looseStmts (bound : List String) : List Stmt → List String
  | [] => []
  | stmt :: rest => stmt.loose bound ++ looseStmts (stmt.locals ++ bound) rest

/-- The locals that are loose in a statement. -/
def Stmt.loose (bound : List String) : Stmt → List String
  | .bind _ _ _ body => body.loose bound
  | .assign _ target _ body => [target].filter (· ∉ bound) ++ body.loose bound
  | .branch _ _ condition yes no => condition.loose bound ++ yes.loose bound ++ no.loose bound
  | .eval e => e.loose bound

end

theorem globalsStmts_cons (stmt : Stmt) (stmts : List Stmt) :
    globalsStmts (stmt :: stmts) = globalsStmts [stmt] ++ globalsStmts stmts := by
  cases stmt <;> simp [globalsStmts]

end Term

/-!
## Environments

What is bound by a term is bound in its environment as well, for the part that
is in the scope. So a name that is not bound by the term means in the part what
it means outside, and what is loose is a local there.
-/

/-- **A local of an environment.** -/
def Env.IsLocal (E : Env) (x : String) : Prop := ∃ l, E x = some (.lexical l)

theorem Env.bind_of_ne {E : Env} {l : Local} {x : String} (h : x ≠ l.name.text) :
    E.bind l x = E x := if_neg h

/-- Parameters hide nothing but their names. -/
theorem Env.foldl_bind_of_not_mem {E : Env} {params : List Local} {x : String}
    (h : x ∉ params.map (·.name.text)) : params.foldl Env.bind E x = E x := by
  induction params generalizing E with
  | nil => rfl
  | cons l params ih =>
    rw [List.map_cons, List.mem_cons, not_or] at h
    rw [List.foldl_cons, ih h.2, Env.bind_of_ne h.1]

namespace Term

variable {Γ : String → Ty → Prop} {bound : List String} {x : String}

theorem mem_filter_not_mem {y : String} (h : x ∈ [y].filter (· ∉ bound)) : x = y ∧ x ∉ bound := by
  simpa [and_comm] using h

/-- A statement hides nothing but what it introduces. -/
theorem Stmt.scope_of_not_mem {E : Env} (stmt : Stmt) (h : x ∉ stmt.locals) :
    stmt.scope E x = E x := by
  cases stmt with
  | bind span name ty body => exact Env.bind_of_ne (List.mem_singleton.not.mp h)
  | assign | branch | eval => rfl

mutual

/-- **What is loose in a term is a local of its environment**, and is not
bound. -/
theorem Typed.of_mem_loose {E : Env} {bound : List String} {t : Term} (h : t.Typed Γ E)
    (hx : x ∈ t.loose bound) : x ∉ bound ∧ E.IsLocal x := by
  obtain ⟨span, ty, node⟩ := t
  cases node with
  | int | float | bool | string | value => cases hx
  | var name binding =>
    cases h with
    | global refers published => cases hx
    | lexical refers =>
      obtain ⟨rfl, hbound⟩ := mem_filter_not_mem hx
      exact ⟨hbound, _, refers⟩
  | call callee arguments =>
    have htyped : callee.Typed Γ E ∧ ∀ e ∈ arguments, e.Typed Γ E := by
      cases h with
      | call typed typedAll takes => exact ⟨typed, typedAll⟩
      | callSingle typed typedArgument takes single => exact ⟨typed, by simpa using typedArgument⟩
    obtain hx | hx := List.mem_append.mp hx
    · exact htyped.1.of_mem_loose hx
    · exact of_mem_looseAll arguments htyped.2 hx
  | tuple elements =>
    have htyped : ∀ e ∈ elements, e.Typed Γ E := by
      cases h with
      | tuple typedAll => exact typedAll
      | tupleType typedAll types => exact typedAll
    exact of_mem_looseAll elements htyped hx
  | list elements =>
    cases h with
    | list typedAll types => exact of_mem_looseAll elements typedAll hx
  | unary op operand =>
    cases h with
    | unary typed rule => exact typed.of_mem_loose hx
  | binary op left right =>
    cases h with
    | binary typedLeft typedRight rule =>
      obtain hx | hx := List.mem_append.mp hx
      · exact typedLeft.of_mem_loose hx
      · exact typedRight.of_mem_loose hx
  | closure params captures body =>
    cases h with
    | @closure _ _ params _ _ kinds typed =>
      obtain ⟨hbound, l, hl⟩ := typed.of_mem_loose hx
      rw [List.map_map, List.mem_append, not_or] at hbound
      rw [Env.foldl_bind_of_not_mem hbound.1] at hl
      exact ⟨hbound.2, l, hl⟩
termination_by structural t

theorem of_mem_looseAll {E : Env} {bound : List String} (ts : List Term)
    (h : ∀ t ∈ ts, t.Typed Γ E) (hx : x ∈ looseAll bound ts) : x ∉ bound ∧ E.IsLocal x := by
  cases ts with
  | nil => cases hx
  | cons t ts =>
    obtain ⟨ht, hts⟩ := List.forall_mem_cons.mp h
    obtain hx | hx := List.mem_append.mp hx
    · exact ht.of_mem_loose hx
    · exact of_mem_looseAll ts hts hx
termination_by structural ts

theorem Block.Typed.of_mem_loose {E : Env} {bound : List String} {b : Block} (h : b.Typed Γ E)
    (hx : x ∈ b.loose bound) : x ∉ bound ∧ E.IsLocal x := by
  obtain ⟨span, ty, stmts⟩ := b
  cases h with
  | mk typed => exact typed.of_mem_loose hx
termination_by structural b

theorem StmtsTyped.of_mem_loose {E : Env} {bound : List String} {stmts : List Stmt}
    (h : StmtsTyped Γ E stmts) (hx : x ∈ looseStmts bound stmts) : x ∉ bound ∧ E.IsLocal x := by
  cases stmts with
  | nil => cases hx
  | cons stmt rest =>
    cases h with
    | cons first others =>
      obtain hx | hx := List.mem_append.mp hx
      · exact first.of_mem_loose hx
      · obtain ⟨hbound, l, hl⟩ := others.of_mem_loose hx
        rw [List.mem_append, not_or] at hbound
        exact ⟨hbound.2, l, (stmt.scope_of_not_mem hbound.1).symm.trans hl⟩
termination_by structural stmts

theorem Stmt.Typed.of_mem_loose {E : Env} {bound : List String} {stmt : Stmt}
    (h : stmt.Typed Γ E) (hx : x ∈ stmt.loose bound) : x ∉ bound ∧ E.IsLocal x := by
  cases stmt with
  | bind span name ty body =>
    cases h with
    | bind typed => exact typed.of_mem_loose hx
  | assign span target op body =>
    cases h with
    | assign refers assignable typed type number =>
      obtain hx | hx := List.mem_append.mp hx
      · obtain ⟨rfl, hbound⟩ := mem_filter_not_mem hx
        exact ⟨hbound, _, refers⟩
      · exact typed.of_mem_loose hx
  | branch span ty condition yes no =>
    cases h with
    | branch typed bool typedYes typedNo type =>
      rw [Stmt.loose, List.mem_append, List.mem_append] at hx
      obtain (hx | hx) | hx := hx
      · exact typed.of_mem_loose hx
      · exact typedYes.of_mem_loose hx
      · exact typedNo.of_mem_loose hx
  | eval e =>
    cases h with
    | eval typed => exact typed.of_mem_loose hx
termination_by structural stmt

end

end Term

end Stagewise
