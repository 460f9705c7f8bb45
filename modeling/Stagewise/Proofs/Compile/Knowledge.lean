import Stagewise.Proofs.Analysis.Soundness
import Stagewise.Proofs.Compile.Run

/-!
# Known values inhabit their types

Folding computes values without a look at types, and an ascription that folds is
taken for a type without being asked. That this is right is a matter of the
whole run. The values that are known have the types that are published for them,
each time a name is looked up, something is folded or a request is made, and
when the analysis ends. Whatever is checked meanwhile folds to a value of its
own type, so an ascription folds to a type. If an ascription turns out to be
something else then the backend said so (`known_values_typed`).
-/

namespace Stagewise

open Analysis

variable {β : Type} {ctx : Context β} {b : β} {s t : State β} {m : Source.Module}
  {backend : Backend β} {options : Options}

namespace Compile

/-!
## The loop

The rounds of a compilation proceed one after the other, from the state in which
nothing is known but the built-ins' names. Since to proceed is to extend the
state, what is shown of any single step holds of the whole run.
-/

/-- **One round proceeds.** -/
theorem analyze_proceeds (hs : Checking ctx [] s) {d : Declaration}
    (hd : d ∈ ctx.declarations.entries) :
    Proceeds ctx s (fun t _ => Checking ctx [] t) (analyze ctx d s) := by
  by_cases hdone : Settled s d.name
  · rw [analyze_of_settled hd hdone]
    exact ⟨.refl s, hs⟩
  · have phase := standing_of_not_settled hs hdone
    have hfree : d.name ∉ s.inProgress := by simp [phase.inProgress, Phase.isOpen]
    have hnew : s.types.lookup d.name = none := by simpa [Phase.isPublished] using phase.published
    have hproceeds : Proceeds ctx s _ (analyze ctx d s) :=
      analyzeWithin_proceeds ctx.declarations.count ⟨hd, hfree, hnew⟩
    have hends := analyze_ends hs hd
    generalize analyze ctx d s = result at hproceeds hends
    cases hends with
    | through course idle done => exact ⟨hproceeds.1, hs.book.course course, idle⟩
    | crashed course crash => exact hproceeds

/-- **The loop proceeds.** -/
theorem settleAll_proceeds {g : Stage.Graph} (order : List Nat) (hs : Checking ctx [] s)
    (hg : ∀ i, (g.node? i >>= (·.declaration) >>= ctx.declarations.find?)
      = ctx.declarations.entries[i]?) :
    Proceeds ctx s (fun _ _ => True) (settleAll ctx g order s) := by
  unfold settleAll
  induction order generalizing s with
  | nil => exact .pure trivial
  | cons i order ih =>
    rw [List.forM_eq_forM, List.forM_cons, hg i]
    cases hi : ctx.declarations.entries[i]? with
    | none => exact ih hs
    | some d =>
      exact .bind (analyze_proceeds hs (List.mem_of_getElem? hi)) fun _ t _ ht => ih ht

/-- A step that proceeds ends in a state that extends the one it began in. -/
theorem extends_endState {R : State β → Unit → Prop} {r : EStateM.Result Halt (State β) Unit}
    (h : Proceeds ctx s R r) : Extends ctx s (endState r) := by
  rcases r with ⟨a, t⟩ | ⟨- | f, t⟩
  · exact h.1
  · exact h
  · exact h.1

/-- Nothing is known in the beginning. -/
theorem informed_start {scopes : Scopes} : Informed ctx b { ctx.start b with scopes } where
  now _ _ hv := absurd hv List.not_mem_nil
  moments _ hm := absurd hm List.not_mem_nil
  builtins _ _ hty := by cases hty
  backend := rfl

namespace Plan

/-- The run over part of a schedule proceeds from a state where nothing is
known. -/
theorem exists_informed (p : Plan m) (backend : Backend β) (b : β) (options : Options)
    (order : List Nat) :
    ∃ s, Informed (p.context backend options) b s ∧
      Proceeds (p.context backend options) s (fun _ _ => True) (p.run backend b options order) := by
  obtain ⟨scopes, hscopes, hrun⟩ := p.exists_scopes backend b options
  have hs : Sound (p.context backend options) b _ := sound_start hscopes
  refine ⟨{ (p.context backend options).start b with scopes }, informed_start, ?_⟩
  rw [hrun]
  exact settleAll_proceeds order ⟨hs.book, rfl⟩ (find?_node? (p := p))

/-- **The analysis is informed** between any two rounds, and where it ends. -/
theorem informed_run (p : Plan m) (backend : Backend β) (b : β) (options : Options)
    (order : List Nat) :
    Informed (p.context backend options) b (endState (p.run backend b options order)) := by
  obtain ⟨s, hs, hproceeds⟩ := p.exists_informed backend b options order
  exact (extends_endState hproceeds).informed b hasBuiltins hs

/-- What is concluded is never that the backend has failed. -/
theorem conclude_ne_backend (p : Plan m) (backend : Backend β) (options : Options)
    (f : Backend.Fault) :
    conclude (p.context backend options) (stageGraph p.declarations) p.schedule s
      ≠ .error (.fatal (.backend f)) := by
  unfold conclude
  dsimp only
  split
  · simp
  split
  · simp
  · simp

/-- **If the backend fails then it is to blame.** -/
theorem blames_of_backend (p : Plan m) {f : Backend.Fault}
    (h : (compileWith m backend b options).result = .error (.fatal (.backend f))) :
    Blames backend b (compileWith m backend b options).transcript (.backend f) := by
  obtain ⟨s, hs, hproceeds⟩ := p.exists_informed backend b options p.schedule.order
  rw [p.compileWith_eq] at h ⊢
  generalize p.run backend b options p.schedule.order = result at hproceeds h ⊢
  rcases result with ⟨⟨⟩, t⟩ | ⟨- | f', t⟩
  · exact absurd h (p.conclude_ne_backend backend options f)
  · cases h
  · obtain rfl : f' = .backend f := Failure.fatal.inj (Except.error.inj h)
    exact hproceeds.2 b hasBuiltins hs

end Plan

end Compile

/-! ## Values and types -/

/-- **Known values inhabit their types**, whatever the backend answers: at every
moment of an analysis, and in the terms that it checks. So a fold is not what an
analysis stops at.

A value is put down when a constant is defined whose body has folded. The body
obeys the typing rules, and folding keeps to them if the values that it is done
with have their types, so the value has the type of the body, which is published
with it. From there on neither is changed. -/
theorem known_values_typed (m : Source.Module) (backend : Backend β) (b : β) (options : Options) :
    (∀ (p : Compile.Plan m) (n : Nat),
      Informed (p.context backend options) b (p.after backend b options n)) ∧
    (∀ (p : Compile.Plan m) (moment : Moment),
      moment = (p.last backend b options).now ∨ moment ∈ (p.last backend b options).moments →
        ∀ x v, (x, v) ∈ moment.values →
          x ∈ p.declarations.names ∧ ∃ ty, moment.types.lookup x = some ty ∧ v.HasType ty) ∧
    (∀ (p : Compile.Plan m) (s t : State β) (depth : Nat) (e : Source.Expr Source.Invocation)
      (hint : Option Ty) (term : Term), Informed (p.context backend options) b s →
        inferWithin (p.context backend options) depth e hint s = .ok term t →
        Informed (p.context backend options) b t ∧
          ∀ v, Fold.term t.values term = some v →
            v.HasType term.ty ∧ (term.ty = .type → ∃ ty, v = .type ty)) ∧
    ∀ f, (compileWith m backend b options).result = .error (.fatal (.backend f)) →
      Blames backend b (compileWith m backend b options).transcript (.backend f) := by
  refine ⟨fun p n => p.informed_run backend b options _, fun p moment hm => ?_,
    fun p s t depth e hint term hs hterm => ?_, fun f hf => ?_⟩
  · have hlast := p.informed_run backend b options p.schedule.order
    obtain rfl | hm := hm
    · exact hlast.now
    · exact hlast.moments moment hm
  · obtain ⟨hst, htyped⟩ := (inferWithin_proceeds depth e hint).of_eq_ok hterm
    have ht := hst.informed b p.hasBuiltins hs
    refine ⟨ht, fun v hv => ?_⟩
    have hvalue := Fold.hasType_term ht.agrees term htyped.wellTyped v hv
    exact ⟨hvalue, fun hty => (hty ▸ hvalue).eq_type⟩
  · obtain ⟨p⟩ := Compile.nonempty_plan_of_fatal hf (fun c hc => by cases hc)
    exact p.blames_of_backend hf

/-- A constant that folds, a function that gives a type, and a constant that has
this type. -/
def chosen : Source.Module :=
  [.constant
    { span := .nowhere, name := .unplaced "three", ascription := .var (.unplaced "Int")
      body := .ofExpr (.binary .nowhere .add (.int .nowhere 1) (.int .nowhere 2)) },
    .function
    { span := .nowhere, name := .unplaced "choose", params := [], result := .var (.unplaced "Type")
      body := .ofExpr (.var (.unplaced "Int")) },
    .constant
    { span := .nowhere, name := .unplaced "chosen"
      ascription := .call .nowhere (.var (.unplaced "choose")) []
      body := .ofExpr (.var (.unplaced "three")) }]

/-- A list of which one element is a name. -/
def threeFour : Source.Expr Source.Invocation :=
  .list .nowhere [.var (.unplaced "three"), .int .nowhere 4]

/-- What is known when the compilation of that module is stopped, and what the
list folds to. -/
theorem exists_run_chosen :
    ∃ (p : Compile.Plan chosen) (v w : Value) (term : Term) (t : State (Buffer Unit)),
      (p.last (Buffer.backend none) { evaluator := () } {}).values.lookup "three" = some v ∧
        v.same (.int 3) ∧
        inferWithin (p.context (Buffer.backend none) {}) 12 threeFour none
          (p.last (Buffer.backend none) { evaluator := () } {}) = .ok term t ∧
        Fold.term t.values term = some w ∧ w.same (.list [.int 3, .int 4]) := by
  have hrun : (Compile.Plan.of? chosen).map (fun p =>
      (((p.last (Buffer.backend none) { evaluator := () } {}).values.lookup "three").map
          (·.same (.int 3)),
        match inferWithin (p.context (Buffer.backend none) {}) 12 threeFour none
            (p.last (Buffer.backend none) { evaluator := () } {}) with
        | .ok term t => (Fold.term t.values term).map (·.same (.list [.int 3, .int 4]))
        | .error _ _ => none)) = some (some true, some true) := by decide +kernel
  obtain ⟨p, -, hp⟩ := Option.map_eq_some_iff.mp hrun
  obtain ⟨hthree, hlist⟩ := Prod.mk.inj hp
  obtain ⟨v, hv, hsame⟩ := Option.map_eq_some_iff.mp hthree
  cases hterm : inferWithin (p.context (Buffer.backend none) {}) 12 threeFour none
      (p.last (Buffer.backend none) { evaluator := () } {}) with
  | error h t =>
    rw [hterm] at hlist
    cases hlist
  | ok term t =>
    rw [hterm] at hlist
    obtain ⟨w, hw, hsame'⟩ := Option.map_eq_some_iff.mp hlist
    exact ⟨p, v, w, term, t, hv, hsame, hterm, hw, hsame'⟩

/-- What is known of the first constant, and a list with its name in it that
folds to values of its own type. The second ascription does not fold, and the
backend says that it cannot evaluate it. -/
theorem chosen_typed :
    (∃ (p : Compile.Plan chosen) (v w : Value) (term : Term) (t : State (Buffer Unit)) (ty : Ty),
      ("three", v) ∈ (p.last (Buffer.backend none) { evaluator := () } {}).values ∧
        v.same (.int 3) ∧
        (p.last (Buffer.backend none) { evaluator := () } {}).types.lookup "three" = some ty ∧
        v.HasType ty ∧
        inferWithin (p.context (Buffer.backend none) {}) 12 threeFour none
          (p.last (Buffer.backend none) { evaluator := () } {}) = .ok term t ∧
        Fold.term t.values term = some w ∧ w.same (.list [.int 3, .int 4]) ∧
        w.HasType term.ty) ∧
    (compileWith chosen (Buffer.backend none) { evaluator := () } {}).result
      = .error (.fatal (.backend (.unsupported "evaluate"))) ∧
    Blames (Buffer.backend none) { evaluator := () }
      (compileWith chosen (Buffer.backend none) { evaluator := () } {}).transcript
      (.backend (.unsupported "evaluate")) := by
  obtain ⟨hinformed, hsound, hfolds, hblames⟩ :=
    known_values_typed chosen (Buffer.backend none) { evaluator := () } {}
  have hfailure :
      (match (compileWith chosen (Buffer.backend none) { evaluator := () } {}).result with
      | .error failure => some failure
      | .ok _ => none) = some (.fatal (.backend (.unsupported "evaluate"))) := by decide +kernel
  have hresult : (compileWith chosen (Buffer.backend none) { evaluator := () } {}).result
      = .error (.fatal (.backend (.unsupported "evaluate"))) := by
    split at hfailure
    · rename_i failure hresult
      cases hfailure
      exact hresult
    · cases hfailure
  refine ⟨?_, hresult, hblames _ hresult⟩
  obtain ⟨p, v, w, term, t, hvalue, hthree, hterm, hfold, hlist⟩ := exists_run_chosen
  have hlast := hinformed p p.schedule.order.length
  rw [Compile.Plan.after, List.take_length] at hlast
  obtain ⟨l, l', hvalues, -⟩ := List.lookup_eq_some_iff.mp hvalue
  have hmem : ("three", v) ∈ (p.last (Buffer.backend none) { evaluator := () } {}).values := by
    simp [hvalues]
  obtain ⟨-, ty, hty, htyped⟩ := hsound p _ (.inl rfl) _ _ hmem
  have hfolded := (hfolds p _ t 12 threeFour none term hlast hterm).2 _ hfold
  exact ⟨p, v, w, term, t, ty, hmem, hthree, hty, htyped, hterm, hfold, hlist, hfolded.1⟩

end Stagewise
