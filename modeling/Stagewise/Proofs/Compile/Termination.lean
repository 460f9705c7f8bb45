import Stagewise.Proofs.Analysis.Expanded
import Stagewise.Proofs.Analysis.Nesting
import Stagewise.Proofs.Compile.Run

/-!
# The analysis comes to an end

Checking a declaration leads to others, and these lead to others again. The
analysis is written with a number of levels that this may go on for, but the
number is of no account (`analysis_terminates`). It solves the equation that
there would be without it, from every state, and nothing else does. When a
module is compiled, there are never more declarations under analysis than there
are declarations, none of them is under analysis twice, and what an expander
returns is not expanded again.
-/

namespace Stagewise

open Analysis

variable {β : Type} {m : Source.Module}

namespace Compile

/-- Settle the declarations of some nodes in order, each by a step of its
own. -/
def settleAllBy (ctx : Context β) (g : Stage.Graph) (settle : Declaration → Check β Unit)
    (order : List Nat) : Check β Unit :=
  order.forM fun i =>
    match g.node? i >>= (·.declaration) >>= ctx.declarations.find? with
    | some d => settle d
    | none => pure ()

/-- **Loops do the same** if the steps in them do, where nothing is under
analysis. -/
theorem settleAllBy_eq {ctx : Context β} {g : Stage.Graph} {settle : Declaration → Check β Unit}
    (order : List Nat) {s : State β} (hs : Checking ctx [] s)
    (hg : ∀ i, (g.node? i >>= (·.declaration) >>= ctx.declarations.find?)
      = ctx.declarations.entries[i]?)
    (h : ∀ t, t.active = [] → ∀ d ∈ ctx.declarations.entries, settle d t = analyze ctx d t) :
    settleAllBy ctx g settle order s = settleAll ctx g order s := by
  unfold settleAllBy settleAll
  induction order generalizing s with
  | nil => rfl
  | cons i order ih =>
    rw [List.forM_eq_forM, List.forM_cons, List.forM_cons, hg i]
    cases hi : ctx.declarations.entries[i]? with
    | none => exact ih hs
    | some d =>
      have hd := List.mem_of_getElem? hi
      have hends := analyze_ends hs hd
      generalize hr : analyze ctx d s = r at hends
      have hr' := (h s hs.active d hd).trans hr
      cases hends with
      | through course idle done =>
        rw [bind_of_ok hr, bind_of_ok hr']
        exact ih ⟨hs.book.course course, idle⟩
      | crashed course crash => rw [bind_of_error hr, bind_of_error hr']

namespace Plan

/-- The run of the loop with another way to settle declarations. -/
def runBy (p : Plan m) (backend : Backend β) (b : β) (options : Options)
    (settle : Declaration → Check β Unit) (order : List Nat) :
    EStateM.Result Halt (State β) Unit :=
  match rootScopes ((p.context backend options).start b).scopes with
  | .ok scopes => settleAllBy (p.context backend options) (stageGraph p.declarations) settle order
      { (p.context backend options).start b with scopes }
  | .error _ => .ok () ((p.context backend options).start b)

/-- **A run may watch itself.** -/
theorem runBy_analyzeWatched (p : Plan m) (backend : Backend β) (b : β) (options : Options)
    (deep again : Declaration → Check β Unit) (order : List Nat) :
    p.runBy backend b options
      (analyzeWatched (p.context backend options) deep again p.declarations.count) order
        = p.run backend b options order := by
  obtain ⟨scopes, hfaithful, hscopes⟩ := p.exists_faithful backend b options
  have hs : Sound (p.context backend options) b _ := sound_start hfaithful
  rw [runBy, run, hscopes]
  exact settleAllBy_eq order ⟨hs.book, rfl⟩ (find?_node? (p := p)) fun t ht d hd =>
    analyzeWatched_eq deep again hd ht

end Plan

end Compile

/-- **The analysis comes to an end.** Settling a declaration of a module solves
the equation that leads from it to the declarations whose types it asks for, and
is the only solution. The run of a compilation is the same if declarations under
analysis are counted and looked at: it does not matter what would be done about
more of them than there are declarations, nor about one that is under analysis
already. And a tree that an expander returned is checked the same whatever would
be done about text to expand in it.

A declaration is marked before it asks for anything, and a declaration that is
marked is not settled on demand. So each level has one declaration less to
settle than the one above it, and the levels cannot run out before the
declarations do. Two solutions of the equation therefore agree by induction on
how many declarations are not marked. -/
theorem analysis_terminates (m : Source.Module) (p : Compile.Plan m) (backend : Backend β) (b : β)
    (options : Options) :
    (∀ d ∈ p.declarations.entries,
      analyze (p.context backend options) d
        = settle d.name (examine (p.context backend options)
            (demandWith (p.context backend options) (analyze (p.context backend options))) d)) ∧
    (∀ A : Declaration → Check β Unit,
      (∀ d ∈ p.declarations.entries,
        A d = settle d.name (examine (p.context backend options)
          (demandWith (p.context backend options) A) d)) →
      ∀ d ∈ p.declarations.entries, A d = analyze (p.context backend options) d) ∧
    (∀ (deep again : Declaration → Check β Unit) (order : List Nat),
      p.runBy backend b options
        (analyzeWatched (p.context backend options) deep again p.declarations.count) order
          = p.run backend b options order) ∧
    ∀ (demand : String → Check β Ty) (nested : Span → Source.Invocation → Option Ty → Check β Term)
      (e : Source.Expr Empty) (hint : Option Ty),
      infer (p.context backend options) demand nested e.lift hint
        = inferExpanded (p.context backend options) demand e hint :=
  ⟨fun _ hd => analyze_eq hd, fun _ hA _ hd => eq_analyze hA hd,
    p.runBy_analyzeWatched backend b options, fun _ _ e hint => infer_lift e hint⟩

end Stagewise
