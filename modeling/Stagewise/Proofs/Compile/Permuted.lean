import Mathlib
import Stagewise.Proofs.Analysis.Reordered
import Stagewise.Proofs.Compile.Circuit
import Stagewise.Proofs.Compile.Emission
import Stagewise.Proofs.Compile.Folding
import Stagewise.Proofs.Compile.Masking
import Stagewise.Proofs.Compile.Reachable
import Stagewise.Proofs.Dependency.Permuted

/-!
# The order of declarations in a module

Declarations may refer to each other in any order, so one should be able to
write them in any order. What they are compiled to is the same then
(`permuted_compiles_unless_hidden`): types, values and stages depend on the
declarations alone. Only the order within a stage, and with it the order of
definitions, depends on how they are written.

There is an exception. A circuit of dependencies may be hidden from the
schedule, and it depends on the declaration by which the analysis gets into it
whether it gets around. A constant on the circuit is a bad one to begin with,
for its type is published at the end. The schedule begins with the right one, as
far as it can tell. But a function outside may lead to the constant before the
schedule does, if it is written first (`entered_reverse_stops`).
-/

namespace Stagewise

open Analysis Relation

variable {β : Type} {ctx : Context β} {m m' : Source.Module} {backend : Backend β} {b : β}
  {options : Options} {s t : State β} {table : String → Except Backend.Fault Data}

namespace Compile

/-! ## The loop -/

/-- Between two rounds, what is not settled can be examined. -/
theorem fresh_of_not_settled (hs : Checking ctx [] s) {d : Declaration}
    (hd : d ∈ ctx.declarations.entries) (h : ¬Settled s d.name) : Fresh ctx s d := by
  have hp := standing_of_not_settled hs h
  refine ⟨hd, fun hprogress => ?_, ?_⟩
  · cases hp.inProgress.mp hprogress
  · exact Option.not_isSome_iff_eq_none.mp (Bool.eq_false_iff.mp hp.published)

/-- **The loop of the first analysis keeps the records.** -/
theorem settleAll_survives (r : Reordering β) {g : Stage.Graph} (order : List Nat)
    (hs : Checking r.first [] s)
    (hg : ∀ i, (g.node? i >>= (·.declaration) >>= r.first.declarations.find?)
      = r.first.declarations.entries[i]?) :
    Survives (Kept r.first r.table s) (settleAll r.first g order s) := by
  unfold settleAll
  induction order generalizing s with
  | nil => exact Kept.refl s
  | cons i order ih =>
    rw [List.forM_eq_forM, List.forM_cons, hg i]
    cases hi : r.first.declarations.entries[i]? with
    | none => exact ih hs
    | some d =>
      have hd := List.mem_of_getElem? hi
      have hround : Survives (Kept r.first r.table s) (analyze r.first d s) := by
        by_cases hdone : Settled s d.name
        · rw [analyze_of_settled hd hdone]
          exact Kept.refl s
        · exact r.survives_analyzeWithin _ s d (fresh_of_not_settled hs hd hdone)
      refine hround.bind fun _ t ht _ => ?_
      have hends := analyze_ends hs hd
      rw [show analyze r.first d s = .ok () t from ht] at hends
      cases hends with
      | through course idle done => exact ih ⟨hs.book.course course, idle⟩

/-- **The loop of the second analysis comes to what is on record.** -/
theorem settleAll_repeats {r : Reordering β}
    (hrecorded : ∀ d ∈ r.first.declarations.entries, Recorded r.first r.table r.last d)
    {g : Stage.Graph} (order : List Nat) (hs : r.Accords s)
    (hg : ∀ i, (g.node? i >>= (·.declaration) >>= r.second.declarations.find?)
      = r.second.declarations.entries[i]?) :
    r.Repeats () s (settleAll r.second g order s) := by
  unfold settleAll
  induction order generalizing s with
  | nil => exact .same ⟨.refl _, rfl, hs⟩
  | cons i order ih =>
    rw [List.forM_eq_forM, List.forM_cons, hg i]
    cases hi : r.second.declarations.entries[i]? with
    | none => exact ih hs
    | some d =>
      have hround := Reordering.repeats_analyzeWithin hrecorded r.second.declarations.count d
        (List.mem_of_getElem? hi) s hs
      exact hround.bind fun t ht hbeside => (ih hbeside.accords).trans hbeside

/-- The loop goes through declarations, and the graph has their numbers. -/
theorem settleAll_eq_forM {g : Stage.Graph}
    (hg : ∀ i, (g.node? i >>= (·.declaration) >>= ctx.declarations.find?)
      = ctx.declarations.entries[i]?) (order : List Nat) :
    settleAll ctx g order
      = (order.filterMap (ctx.declarations.entries[·]?)).forM (analyze ctx) := by
  unfold settleAll
  induction order with
  | nil => rfl
  | cons i order ih =>
    rw [List.forM_eq_forM] at ih ⊢
    rw [List.forM_cons, hg i, List.filterMap_cons]
    cases hi : ctx.declarations.entries[i]? with
    | none => exact ih
    | some d =>
      dsimp only
      rw [ih]
      rfl

/-- Why a loop was stopped, if it was. -/
def halt? : EStateM.Result Halt (State β) Unit → Option Halt
  | .ok _ _ => none
  | .error e _ => some e

/-!
## Plans

The schedule is computed from the stage graph, whose nodes are numbered by where
declarations are written. To put these into another order is to renumber the
nodes. That the stages are the same sets then is a property of the schedule and
is shown elsewhere. Here it is brought to modules and plans.
-/

/-- The built-ins are introduced over the same top-level names. -/
theorem isolated_rootScopes {scopes scopes' : Scopes} (h : rootScopes scopes = .ok scopes') :
    scopes'.isolated = scopes.isolated := by
  unfold rootScopes at h
  generalize Builtin.all = builtins at h
  induction builtins generalizing scopes with
  | nil => exact Except.ok.inj h ▸ rfl
  | cons b builtins ih =>
    rw [List.foldlM_cons] at h
    cases hadd : scopes.add (.unplaced b.name) (.global b.name) with
    | error d =>
      rw [hadd] at h
      cases h
    | ok next =>
      rw [hadd] at h
      exact (ih h).trans (Scopes.isolated_add hadd)

/-- What a compiled module says is read off where the loop ends. -/
theorem of_conclude_eq_ok {g : Stage.Graph} {schedule : Stage.Schedule} {c : Compiled}
    (h : conclude ctx g schedule s = .ok c) :
    c.order = s.defined ∧ c.stages = schedule.stages.map g.labels ∧
      (∀ x, c.typeOf? x = if x ∈ ctx.declarations.names then s.types.lookup x else none) ∧
      ∀ x, c.valueOf? x = if x ∈ ctx.declarations.names then s.values.lookup x else none := by
  dsimp only [conclude] at h
  split at h
  · cases h
  split at h
  · cases h
  obtain rfl := Except.ok.inj h
  exact ⟨rfl, rfl, fun x => lookup_tabulate_eq .., fun x => lookup_tabulate_eq ..⟩

namespace Plan

/-- **The declarations of a plan can be planned in any other order**, for the
same stages. -/
theorem exists_of_perm (p : Plan m) (h : m.Perm m') :
    ∃ p' : Plan m', p.declarations.entries.Perm p'.declarations.entries ∧
      List.Forall₂ List.Perm (p.schedule.stages.map (stageGraph p.declarations).labels)
        (p'.schedule.stages.map (stageGraph p'.declarations).labels) := by
  have hentries : (Declarations.entriesOf m).Perm (Declarations.entriesOf m') :=
    (h.map _).append_left _
  have herrors : (Register.of (Declarations.entriesOf m')).errors.isEmpty := by
    have hdistinct := p.declarations.distinct
    rw [p.entries_eq] at hdistinct
    exact (Register.isEmpty_errors_iff _).mpr ((hentries.map _).nodup_iff.mp hdistinct)
  have hperm : p.declarations.entries.Perm (Declarations.ofEntries _ herrors).entries :=
    p.entries_eq ▸ hentries
  obtain ⟨schedule, hschedule, hstages⟩ := Dependencies.exists_schedule_of_perm hperm p.scheduled
  exact ⟨⟨_, schedule, dif_pos herrors, hschedule⟩, hperm, hstages⟩

/-- The run of a plan goes through the declarations of the schedule. -/
theorem run_eq_forM (p : Plan m) {scopes : Scopes}
    (h : rootScopes ((p.context backend options).start b).scopes = .ok scopes) (order : List Nat) :
    p.run backend b options order = (order.filterMap (p.declarations.entries[·]?)).forM
      (analyze (p.context backend options))
      { (p.context backend options).start b with scopes } := by
  rw [run, h]
  dsimp only
  rw [settleAll_eq_forM (find?_node? (p := p))]

/-- All is settled, and nothing was found wrong. -/
theorem exists_conclude (p : Plan m) (backend : Backend β) (options : Options)
    (hsettled : (s.defined ++ s.failed).Perm p.declarations.names) (hreports : s.reports = []) :
    ∃ c, conclude (p.context backend options) (stageGraph p.declarations) p.schedule s = .ok c := by
  have hdiagnostics : s.diagnostics = [] := by
    rw [State.diagnostics, hreports]
    rfl
  rw [conclude, if_neg (not_not.mpr (length_of_settled hsettled)), hdiagnostics]
  exact ⟨_, rfl⟩

/-- A module is compiled if the loop is not stopped, and nothing was found
wrong. -/
theorem exists_of_halt? (p : Plan m)
    (h : halt? (p.run backend b options p.schedule.order) = none)
    (hreports : (p.last backend b options).reports.isEmpty = true) :
    ∃ c, (compileWith m backend b options).result = .ok c := by
  rw [p.compileWith_eq]
  obtain ⟨s, hrun, -, -, hsettled⟩ | ⟨u, f, s, hrun, -⟩ := p.run_cases backend b options
  · have hlast : p.last backend b options = s := congrArg endState hrun
    rw [hlast, List.isEmpty_iff] at hreports
    rw [hrun]
    exact p.exists_conclude backend options hsettled hreports
  · rw [hrun] at h
    cases h

/-- What stops the loop is what the compilation ends with. -/
theorem result_of_halt? (p : Plan m) {f : Fatal}
    (h : halt? (p.run backend b options p.schedule.order) = some (.fatal f)) :
    (compileWith m backend b options).result = .error (.fatal f) := by
  rw [p.compileWith_eq]
  cases hrun : p.run backend b options p.schedule.order with
  | ok a s =>
    rw [hrun] at h
    cases h
  | error e s =>
    rw [hrun] at h
    rw [Option.some.inj h]

/-- **The analysis starts** in a tidy state, and with nothing known. -/
theorem exists_tidy (p : Plan m) (backend : Backend β) (b : β) (options : Options)
    (table : String → Except Backend.Fault Data) :
    ∃ s : State β, Checking (p.context backend options) [] s ∧
      Tidy (p.context backend options) table s ∧ s.defined = [] ∧ s.types = [] ∧ s.failed = [] ∧
      s.reports = [] ∧ p.run backend b options p.schedule.order
        = settleAll (p.context backend options) (stageGraph p.declarations) p.schedule.order s := by
  obtain ⟨scopes, hfaithful, hscopes⟩ := p.exists_faithful backend b options
  have hs : Sound (p.context backend options) b _ := sound_start hfaithful
  refine ⟨{ (p.context backend options).start b with scopes }, ⟨hs.book, rfl⟩, ?_, rfl, rfl, rfl,
    rfl, by rw [run, hscopes]⟩
  refine ⟨fun text d hd => ?_, fun x v hv => ?_, isolated_rootScopes hscopes⟩
  · cases hd
  · cases hv

/-- The analyses of two modules with the same declarations. -/
def reordering (p : Plan m) (p' : Plan m')
    (h : p.declarations.entries.Perm p'.declarations.entries) (hr : backend.Replies table)
    (options : Options) (last : State β) : Reordering β where
  first := p.context backend options
  second := p'.context backend options
  last := last
  table := table
  entries := h
  options := rfl
  replies := hr
  replies' := hr

/-- **A compilation that succeeds has examined every declaration** with
success. -/
theorem recorded (p : Plan m) (hr : backend.Replies table) {c : Compiled}
    (hc : (compileWith m backend b options).result = .ok c) :
    ∀ d ∈ p.declarations.entries,
      Recorded (p.context backend options) table (p.last backend b options) d := by
  intro d hd
  obtain ⟨-, idle, hfailed, hdefined, -⟩ := (p.finishes backend b options).of_result_eq_ok hc
  obtain ⟨start, hchecking, htidy, hnone, -, -, -, hrun⟩ := p.exists_tidy backend b options table
  have hkept := (settleAll_survives (p.reordering p (.refl _) hr options start) p.schedule.order
    hchecking (find?_node? (p := p))).of_eq_ok (hrun.symm.trans (p.run_of_result_eq_ok hc).1)
  obtain ⟨d', hd', hname, hrecorded⟩ := hkept.recorded htidy d.name
    (hdefined.mem_iff.mpr (List.mem_map.mpr ⟨d, hd, rfl⟩)) (hnone ▸ List.not_mem_nil)
    (idle ▸ List.not_mem_nil) (hfailed ▸ List.not_mem_nil)
  have hfind := Declarations.find?_eq_some_iff.mpr ⟨hd', hname⟩
  obtain rfl := Option.some.inj (hfind.symm.trans (Declarations.find?_eq_some_iff.mpr ⟨hd, rfl⟩))
  exact hrecorded

/-- **The declarations are gone through in another order** with the results that
are on record, or it comes to a defect of the compiler. -/
theorem repeats_run (p : Plan m) (p' : Plan m')
    (h : p.declarations.entries.Perm p'.declarations.entries) (hr : backend.Replies table)
    (b : β) {last : State β}
    (hrecorded : ∀ d ∈ p.declarations.entries,
      Recorded (p.context backend options) table last d) :
    ∃ s, (p.reordering p' h hr options last).Repeats () s
      (p'.run backend b options p'.schedule.order) := by
  obtain ⟨s, -, htidy, -, htypes, hfailed, hreports, hrun⟩ := p'.exists_tidy backend b options table
  have hwithin : Within s last := by
    intro x ty hx
    rw [Published, htypes] at hx
    cases hx
  have haccords : (p.reordering p' h hr options last).Accords s :=
    ⟨htidy, hwithin, hfailed, hreports⟩
  rw [hrun]
  exact ⟨s, settleAll_repeats hrecorded _ haccords (find?_node? (p := p'))⟩

/-- **What is on a circle of references is on a hidden circuit**, if there is
nothing to expand: the schedule did not see it. -/
theorem exists_hidden (p : Plan m) (backend : Backend β) (b : β) (options : Options)
    (hplain : ∀ item ∈ m, item.isPlain = true) {x : String}
    (h : TransGen (Refers (p.last backend b options).resolutions) x x) :
    ∃ (n : Nat) (shape : Fin (n + 1) → Turn) (names : Fin (n + 1) → String),
      (Dependencies.collect p.declarations).IsCircuit p.declarations shape names ∧
        Dependencies.Hidden shape ∧ names 0 = x := by
  obtain ⟨y, hxy, hyx⟩ := TransGen.head'_iff.mp h
  have hx := p.mem_names_of_refers hxy
  have hdepends := TransGen.head'
    (p.dependsOn_of_refers hplain (p.mem_names_of_reaches hx hyx) hxy)
    (p.reaches_dependsOn hplain hx hyx)
  obtain ⟨n, shape, names, hcircuit, hzero⟩ := Dependencies.exists_isCircuit hdepends
  refine ⟨n, shape, names, hcircuit, ?_, hzero⟩
  by_contra hshape
  obtain ⟨cycle, hcycle⟩ := Dependencies.schedule_eq_error_of_isCircuit hcircuit hshape
  cases p.scheduled.symm.trans hcycle

/-- **What was gone through in another order is compiled to the same.** -/
theorem conclude_of_within (p : Plan m) (p' : Plan m')
    (h : p.declarations.entries.Perm p'.declarations.entries) {c : Compiled}
    (hc : (compileWith m backend b options).result = .ok c)
    (sound : Sound (p'.context backend options) b s)
    (hsettled : (s.defined ++ s.failed).Perm p'.declarations.names) (hfailed : s.failed = [])
    (hreports : s.reports = []) (hwithin : Within s (p.last backend b options)) :
    ∃ c', conclude (p'.context backend options) (stageGraph p'.declarations) p'.schedule s
        = .ok c' ∧
      (∀ x, c'.typeOf? x = c.typeOf? x) ∧ (∀ x, c'.valueOf? x = c.valueOf? x) ∧
      c.order.Perm c'.order ∧
      c.stages = p.schedule.stages.map (stageGraph p.declarations).labels ∧
      c'.stages = p'.schedule.stages.map (stageGraph p'.declarations).labels := by
  have hnames := Declarations.names_perm h
  have hdefined : s.defined.Perm p'.declarations.names := by
    rwa [hfailed, List.append_nil] at hsettled
  -- everything has a type in the end, and so is known to the first analysis
  have hknown (x : String) (hx : x ∈ p'.declarations.names) :
      s.types.lookup x = (p.last backend b options).types.lookup x ∧
        s.values.lookup x = (p.last backend b options).values.lookup x := by
    obtain ⟨q, hq⟩ := sound.book.standing x
    obtain rfl := hq.defined.mp (hdefined.mem_iff.mpr hx)
    obtain ⟨ty, hty⟩ := Option.isSome_iff_exists.mp hq.published
    obtain ⟨hlast, hvalue⟩ := hwithin x ty hty
    exact ⟨hty.trans hlast.symm, hvalue.symm⟩
  obtain ⟨-, -, -, hfirst, -⟩ := (p.finishes backend b options).of_result_eq_ok hc
  obtain ⟨horder, hstages, htypes, hvalues⟩ := of_conclude_eq_ok (p.run_of_result_eq_ok hc).2
  obtain ⟨c', hc'⟩ := p'.exists_conclude backend options hsettled hreports
  obtain ⟨horder', hstages', htypes', hvalues'⟩ := of_conclude_eq_ok hc'
  refine ⟨c', hc', fun x => ?_, fun x => ?_, ?_, hstages, hstages'⟩
  · rw [htypes, htypes']
    simp only [hnames.mem_iff]
    split
    · exact (hknown x ‹_›).1
    · rfl
  · rw [hvalues, hvalues']
    simp only [hnames.mem_iff]
    split
    · exact (hknown x ‹_›).2
    · rfl
  · rw [horder, horder']
    exact hfirst.trans (hnames.trans hdefined.symm)

end Plan

end Compile

/-- **The order of declarations does not matter, but for hidden circuits.** Let
a module with nothing to expand be compiled, by a backend that takes all it is
told and replies to what it is to evaluate by the text alone. If its
declarations are put into another order then they are compiled to the same types
and values, with the same names in each stage, and the order of definitions has
the same names. Or the compilation stops at a declaration that turns out to be
under analysis, or not defined, when it is needed. Then it is one that lies on a
circuit of dependencies, and the schedule did not see that circuit.

The first compilation has gone through every declaration with success, and there
is a record of each. The second one takes them up in another order. When it
checks something then this is what the first one has checked, with the same
names known or not known yet, and so it comes to the same
(`Reordering.Replays`). Only that something is needed too early is possible,
since what is under analysis at that time is not the same. -/
theorem permuted_compiles_unless_hidden (m m' : Source.Module) (backend : Backend β) (b : β)
    (options : Options) (table : String → Except Backend.Fault Data) (hr : backend.Replies table)
    (hplain : ∀ item ∈ m, item.isPlain = true) (hperm : m.Perm m') (c : Compiled)
    (hc : (compileWith m backend b options).result = .ok c) :
    (∃ c', (compileWith m' backend b options).result = .ok c' ∧
      (∀ x, c'.typeOf? x = c.typeOf? x) ∧ (∀ x, c'.valueOf? x = c.valueOf? x) ∧
      List.Forall₂ List.Perm c.stages c'.stages ∧ c.order.Perm c'.order) ∨
    ∃ (x : String) (ds : Declarations) (n : Nat) (shape : Fin (n + 1) → Turn)
      (names : Fin (n + 1) → String),
      ((compileWith m' backend b options).result = .error (.fatal (.internal (.reentrant x))) ∨
        (compileWith m' backend b options).result
          = .error (.fatal (.internal (.evaluatedTooEarly x)))) ∧
      Declarations.collect m' = .ok ds ∧ (Dependencies.collect ds).IsCircuit ds shape names ∧
      Dependencies.Hidden shape ∧ names 0 = x := by
  obtain ⟨p⟩ := Compile.nonempty_plan_of_ok hc
  -- the stages are the same sets of declarations, so the other order has a plan as well
  obtain ⟨p', hentries, hstages⟩ := p.exists_of_perm hperm
  have hrecorded := p.recorded hr hc
  generalize hfirst : p.last backend b options = last at hrecorded
  obtain ⟨start, hrepeats⟩ := p.repeats_run p' hentries hr b hrecorded
  rw [p'.compileWith_eq]
  obtain ⟨s, hrun, sound, -, hsettled⟩ | ⟨u, f, s, hrun, sound, crash⟩ :=
    p'.run_cases backend b options
  · rw [hrun] at hrepeats ⊢
    cases hrepeats with
    | same hbeside =>
      have haccords := hbeside.accords
      have hwithin : Within s last := haccords.within
      obtain ⟨c', hc', htypes, hvalues, horder, hstages₁, hstages₂⟩ :=
        p.conclude_of_within p' hentries hc sound hsettled haccords.failed haccords.reports
          (hfirst ▸ hwithin)
      refine .inl ⟨c', hc', htypes, hvalues, ?_, horder⟩
      rwa [hstages₁, hstages₂]
  · have hlast : p'.last backend b options = s := congrArg Compile.endState hrun
    rw [hrun] at hrepeats ⊢
    cases hrepeats with
    | early hfailed =>
      have hcircuit {x : String} (hx : TransGen (Refers s.resolutions) x x) :=
        p'.exists_hidden backend b options
          (fun item hitem => hplain item (hperm.mem_iff.mpr hitem)) (hlast.symm ▸ hx)
      cases Compile.masks_of_internal sound crash with
      | abandoned function refused declared => 
        rw [hfailed] at refused
        cases refused
      | early circular =>
        obtain ⟨n, shape, names, hnames⟩ := hcircuit circular
        exact .inr ⟨_, _, n, shape, names, .inr rfl, p'.collected, hnames⟩
      | reentrant circular =>
        obtain ⟨n, shape, names, hnames⟩ := hcircuit circular
        exact .inr ⟨_, _, n, shape, names, .inl rfl, p'.collected, hnames⟩

/-! ## Two modules in reverse -/

/-- Two constants, one of which stands for the type of the other. Without
folding, the backend is asked for it. -/
theorem renamed_reverse_compiles :
    naming.Replies typeTable ∧ (∀ item ∈ renamed, item.isPlain = true) ∧
      renamed.Perm renamed.reverse ∧
      ∃ c c', (compileWith renamed naming { evaluator := () } { fold := false }).result = .ok c ∧
        (compileWith renamed.reverse naming { evaluator := () } { fold := false }).result = .ok c' ∧
        c.typeOf? "x" = some .bool ∧ (∀ x, c'.typeOf? x = c.typeOf? x) ∧
        (∀ x, c'.valueOf? x = c.valueOf? x) ∧ List.Forall₂ List.Perm c.stages c'.stages ∧
        c.order.Perm c'.order := by
  have hplain : ∀ item ∈ renamed, item.isPlain = true := by decide
  have hperm : renamed.Perm renamed.reverse := renamed.reverse_perm.symm
  refine ⟨replies_naming, hplain, hperm, ?_⟩
  have hty : (compileWith renamed naming { evaluator := () } { fold := false }).result.toOption.bind
      (·.typeOf? "x") = some .bool := by decide +kernel
  have hok : (compileWith renamed.reverse naming { evaluator := () } { fold := false }).result.isOk
      = true := by decide +kernel
  cases hc : (compileWith renamed naming { evaluator := () } { fold := false }).result with
  | error failure =>
    rw [hc] at hty
    cases hty
  | ok c =>
    rw [hc] at hty
    obtain ⟨c', hc', hsame⟩ | ⟨x, ds, n, shape, names, hstop | hstop, -⟩ :=
      permuted_compiles_unless_hidden renamed renamed.reverse naming { evaluator := () }
        { fold := false } typeTable replies_naming hplain hperm c hc
    · exact ⟨c, c', rfl, hc', hty, hsame⟩
    · rw [hstop] at hok
      cases hok
    · rw [hstop] at hok
      cases hok

/-- A constant that is computed by a function, which calls another one, which
reads the constant; and a way into that circuit: a function that reads the
constant, and one that calls the function. -/
def entered : Source.Module :=
  ouroboros ++
    [.function
      { span := .nowhere, name := .unplaced "k", params := [], result := .tuple .nowhere []
        body := .ofExpr (.var (.unplaced "c")) },
      .function
      { span := .nowhere, name := .unplaced "h", params := [], result := .tuple .nowhere []
        body := .ofExpr (.call .nowhere (.var (.unplaced "k")) []) }]

/-- The schedule begins with the function that the constant is computed by. -/
def enteredPlan : Compile.Plan entered where
  declarations := .ofEntries (Declarations.entriesOf entered) (by decide)
  schedule := ⟨[[0, 1, 2, 3, 4, 5, 6, 7, 8, 9, 11, 12, 13, 10]]⟩
  collected := rfl
  scheduled := by cbv

/-- The schedule begins with the function that leads to the constant. -/
def enteredReversePlan : Compile.Plan entered.reverse where
  declarations := .ofEntries (Declarations.entriesOf entered.reverse) (by decide)
  schedule := ⟨[[0, 1, 2, 3, 4, 5, 6, 7, 8, 9, 13, 11, 12, 10]]⟩
  collected := rfl
  scheduled := by cbv

/-- **A module that is compiled in one order and not in another.** -/
theorem entered_reverse_stops :
    (Buffer.backend none : Backend (Buffer Unit)).Replies
      (fun _ => .error (.unsupported Request.evaluate.text)) ∧
    (∀ item ∈ entered, item.isPlain = true) ∧ entered.Perm entered.reverse ∧
    (∃ c, compile entered {} = .ok c) ∧
    compile entered.reverse {} = .error (.fatal (.internal (.reentrant "c"))) := by
  refine ⟨⟨fun _ _ => rfl, fun _ _ => rfl, fun _ _ => rfl⟩, by decide, entered.reverse_perm.symm,
    ?_, ?_⟩
  · refine enteredPlan.exists_of_halt? ?_ ?_
    · rw [enteredPlan.run_eq_forM rfl]
      decide +kernel
    · rw [Compile.Plan.last, enteredPlan.run_eq_forM rfl]
      decide +kernel
  · refine enteredReversePlan.result_of_halt? ?_
    rw [enteredReversePlan.run_eq_forM rfl]
    decide +kernel

end Stagewise
