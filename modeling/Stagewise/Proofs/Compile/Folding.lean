import Stagewise.Proofs.Analysis.Unfolded
import Stagewise.Proofs.Compile.Run
import Stagewise.Proofs.Value.RoundTrip

/-!
# Folding makes no difference

Types are values, and an ascription is an expression, so what an ascription
stands for is either folded or left to the backend. Folding saves requests. It
also computes something that the backend could have computed otherwise, or not
at all, so it might accept more than is accepted without it, or less.

It does neither (`folding_keeps_outline`), if the backend evaluates what was
folded to the values it was folded to. A compilation ends the same way with
folding and without, in a compiled module or in the same failure, and of the
compiled module nothing depends on it but the program and the values that are
known.
-/

namespace Stagewise

open Analysis

variable {β : Type} {m : Source.Module} {ctx : Context β}
  {table : String → Except Backend.Fault Data}

/-- **What a compiled module is to those who use it**: all but how it is
computed. -/
def Compiled.outline (c : Compiled) :
    List (String × Ty) × List String × List (List String) × List (String × String) :=
  (c.types, c.order, c.stages, c.references)

namespace Compile

/-- **The loop has a twin.** -/
theorem twin_settleAll (hr : ctx.backend.Replies table) (hall : ctx.HasBuiltins) {g : Stage.Graph}
    (hg : ∀ i, (g.node? i >>= (·.declaration) >>= ctx.declarations.find?)
      = ctx.declarations.entries[i]?) (order : List Nat) :
    Twin table (settleAll ctx g order) (settleAll ctx.unfolded g order) := by
  have hc := congruence_twin (β := β) table
  unfold settleAll
  induction order with
  | nil => exact hc.pure ()
  | cons i order ih =>
    rw [List.forM_eq_forM, List.forM_cons, List.forM_cons,
      show ctx.unfolded.declarations = ctx.declarations from rfl, hg i]
    refine hc.bind ?_ fun _ => ih
    cases hi : ctx.declarations.entries[i]? with
    | none => exact hc.pure ()
    | some d => exact twin_analyzeWithin hr hall _ (List.mem_of_getElem? hi)

/-- What the outline of a compiled module is read off. -/
theorem map_outline_conclude {ctx ctx' : Context β} {g : Stage.Graph} {schedule : Stage.Schedule}
    {s s' : State β} (declarations : ctx'.declarations = ctx.declarations)
    (reports : s'.reports = s.reports) (defined : s'.defined = s.defined)
    (failed : s'.failed = s.failed) (types : s'.types = s.types)
    (resolutions : s'.resolutions = s.resolutions) :
    (conclude ctx' g schedule s').map Compiled.outline
      = (conclude ctx g schedule s).map Compiled.outline := by
  have hdiagnostics : s'.diagnostics = s.diagnostics :=
    congrArg (List.map Report.diagnostic) reports
  simp only [conclude, declarations, hdiagnostics, defined, failed, types, resolutions]
  by_cases hsettled : s.defined.length + s.failed.length ≠ ctx.declarations.count
  · rw [if_pos hsettled, if_pos hsettled]
  · rw [if_neg hsettled, if_neg hsettled]
    cases s.diagnostics.isEmpty <;> rfl

/-- **Runs are twins.** -/
theorem Plan.exists_run_eq_beside (p : Plan m) (backend : Backend β) (b : β) (options : Options)
    (hr : backend.Replies table) (hfolds : Confirms table (p.last backend b options).foldings) :
    ∃ o, p.run backend b { options with fold := false } p.schedule.order
      = besideResult o (p.run backend b options p.schedule.order) := by
  obtain ⟨start, hstart, hrun, hrun'⟩ : ∃ start : State β, Backed start ∧
      p.run backend b options p.schedule.order = settleAll (p.context backend options)
        (stageGraph p.declarations) p.schedule.order start ∧
      p.run backend b { options with fold := false } p.schedule.order
        = settleAll (p.context backend options).unfolded (stageGraph p.declarations)
          p.schedule.order start := by
    obtain ⟨scopes, -, hscopes⟩ := p.exists_faithful backend b options
    have hscopes' : rootScopes ((p.context backend { options with fold := false }).start b).scopes
        = .ok scopes := hscopes
    refine ⟨{ (p.context backend options).start b with scopes }, ⟨fun x hx => ?_, fun c hc => ?_⟩,
      by rw [run, hscopes], ?_⟩
    · cases hx
    · cases hc
    · rw [run, hscopes']
      rfl
  have hall : (p.context backend options).HasBuiltins := p.hasBuiltins
  have htwins := twin_settleAll hr hall (find?_node? (p := p)) p.schedule.order start
  rw [last, hrun] at hfolds
  rw [hrun, hrun']
  refine htwins.beside hstart ?_ start.unseen
  cases h : settleAll (p.context backend options) (stageGraph p.declarations) p.schedule.order start
  all_goals
    rw [h] at hfolds
    exact hfolds

/-- A module without a plan is refused for what it is, and not for how it was to
be compiled. -/
theorem compileWith_eq_of_isEmpty (h : IsEmpty (Plan m)) (backend : Backend β) (b : β)
    (options options' : Options) :
    compileWith m backend b options = compileWith m backend b options' := by
  unfold compileWith
  cases hm : Declarations.collect m with
  | error ds => rfl
  | ok ds =>
    dsimp only
    cases hschedule : (stageGraph ds).schedule with
    | error cycle => rfl
    | ok schedule => exact h.elim ⟨ds, schedule, hm, hschedule⟩

end Compile

/-- **Folding makes no difference** to what is accepted. Let a backend take all
it is told and reply to what it is to evaluate by the text alone, and with the
values that ascriptions were folded to in the compilation with folding. Then a
compilation without folding ends as one with folding: in the same failure, or in
a compiled module with the same types, order, stages and references.

The two compilations are followed step by step, and go through states that are
the same but for what is not seen in the outline: the requests, the values that
are known, and what was folded. They could part at an ascription. With folding
it has a value at once, and without it the backend is asked, which gives the
same value by assumption. What has to be defined for that is defined, since only
what is defined has a value that could have been folded with. -/
theorem folding_keeps_outline (m : Source.Module) (backend : Backend β) (b : β) (options : Options)
    (table : String → Except Backend.Fault Data) (hr : backend.Replies table)
    (hfolds : ∀ p : Compile.Plan m,
      Confirms table (p.last backend b { options with fold := true }).foldings) :
    (compileWith m backend b { options with fold := false }).result.map Compiled.outline
      = (compileWith m backend b { options with fold := true }).result.map Compiled.outline := by
  by_cases hplan : Nonempty (Compile.Plan m)
  · obtain ⟨p⟩ := hplan
    obtain ⟨o, ho⟩ := p.exists_run_eq_beside backend b { options with fold := true } hr (hfolds p)
    have ho : p.run backend b { options with fold := false } p.schedule.order = _ := ho
    rw [p.compileWith_eq, p.compileWith_eq, ho]
    rcases p.run backend b { options with fold := true } p.schedule.order with ⟨⟨⟩, s⟩ | ⟨e, s⟩
    · exact Compile.map_outline_conclude rfl rfl rfl rfl rfl rfl
    · cases e <;> rfl
  · have hempty : IsEmpty (Compile.Plan m) := not_nonempty_iff.mp hplan
    rw [Compile.compileWith_eq_of_isEmpty hempty]

/-- A constant that stands for a type, and one that has this type. -/
def renamed : Source.Module :=
  [.constant
    { span := .nowhere, name := .unplaced "x", ascription := .var (.unplaced "Truth")
      body := .ofExpr (.bool .nowhere true) },
    .constant
    { span := .nowhere, name := .unplaced "Truth", ascription := .var (.unplaced "Type")
      body := .ofExpr (.var (.unplaced "Bool")) }]

/-- What the names of types stand for. -/
def typeTable (text : String) : Except Backend.Fault Data :=
  if text = "Type" then .ok (Value.type .type).encode else .ok (Value.type .bool).encode

/-- A backend that knows these names. -/
def naming : Backend (Buffer Unit) := Buffer.backend (some fun text e => (typeTable text, e))

/-- What it replies depends on the text alone. -/
theorem replies_naming : naming.Replies typeTable :=
  ⟨fun _ _ => rfl, fun _ _ => rfl, fun _ _ => rfl⟩

/-- A value that stands for a type is that type. -/
theorem eq_type_of_type? {v : Value} {ty : Ty} (h : v.type? = some ty) : v = .type ty := by
  cases v <;> cases h
  rfl

/-- Two ascriptions of the module are folded, the second one by the value of a
constant. Without folding the backend is asked for both, and has to evaluate the
constant. -/
theorem renamed_keeps_outline :
    (∀ p : Compile.Plan renamed,
      Confirms typeTable (p.last naming { evaluator := () } { fold := true }).foldings) ∧
    (compileWith renamed naming { evaluator := () } { fold := true }).result.isOk = true ∧
    (compileWith renamed naming { evaluator := () } { fold := false }).result.map Compiled.outline
      = (compileWith renamed naming { evaluator := () } { fold := true }).result.map
        Compiled.outline := by
  have hfolds : ∀ p : Compile.Plan renamed,
      Confirms typeTable (p.last naming { evaluator := () } { fold := true }).foldings := by
    have hfound : (Compile.Plan.of? renamed).map (fun p =>
        (p.last naming { evaluator := () } { fold := true }).foldings.map fun f =>
          (f.1.lower.text, f.2.type?)) = some [("Type", some .type), ("Truth", some .bool)] := by
      decide +kernel
    obtain ⟨q, -, hq⟩ := Option.map_eq_some_iff.mp hfound
    intro p t v hv
    obtain rfl := p.eq q
    have hmem := List.mem_map_of_mem (f := fun f : Term × Value => (f.1.lower.text, f.2.type?)) hv
    rw [hq] at hmem
    obtain ⟨htext, hty⟩ | ⟨htext, hty⟩ : t.lower.text = "Type" ∧ v.type? = some .type ∨
        t.lower.text = "Truth" ∧ v.type? = some .bool := by simpa using hmem
    · rw [htext, eq_type_of_type? hty]
      exact ⟨_, rfl, Value.decode_encode _⟩
    · rw [htext, eq_type_of_type? hty]
      exact ⟨_, rfl, Value.decode_encode _⟩
  exact ⟨hfolds, by decide +kernel,
    folding_keeps_outline renamed naming { evaluator := () } {} typeTable replies_naming hfolds⟩

end Stagewise
