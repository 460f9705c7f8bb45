import Stagewise.Proofs.Analysis.Reports
import Stagewise.Proofs.Compile.Run

/-!
# What becomes of every declaration

A compilation succeeds if nothing was reported. It does not look at which
declarations were defined and which were refused, except that it counts them,
and so it depends on two things that are not checked anywhere. One is that every
declaration is settled, one way or the other and not both (`settled_apart`). The
other is that no declaration is refused in silence (`failures_accounted`):
between two rounds of the loop something was reported if and only if something
was refused, each declaration has reported one thing at most, and what has
reported nothing refers to something else that was refused.
-/

namespace Stagewise

open Analysis

variable {β : Type} {m : Source.Module} {backend : Backend β} {b : β} {options : Options}
  {s : State β}

namespace Compile

/-- What is accounted for is so from the beginning. -/
theorem accounted_start {ctx : Context β} {scopes : Scopes} :
    Accounted { ctx.start b with scopes } where
  named _ hr := absurd hr List.not_mem_nil
  inside _ hr := absurd hr List.not_mem_nil
  once := List.nodup_nil
  inherited _ hx := absurd hx List.not_mem_nil

namespace Plan

variable {p : Plan m} {order : List Nat}

/-- **Between two rounds of the loop** the analysis is sound, what was refused
is accounted for, and all that came up is settled. -/
theorem of_run_eq_ok (h : p.run backend b options order = .ok () s) :
    Sound (p.context backend options) b s ∧ Accounted s ∧
      ∀ i ∈ order, ∀ d ∈ p.declarations.entries[i]?, Settled s d.name := by
  obtain ⟨scopes, hscopes, hrun⟩ := p.exists_scopes backend b options
  have hs : Sound (p.context backend options) b _ := sound_start hscopes
  have hends := settleAll_ends order ⟨hs.book, rfl⟩ (find?_node? (p := p))
  rw [← hrun, h] at hends
  cases hends with
  | through course idle done =>
    exact ⟨hs.course p.hasBuiltins course, accounted_start.course hs.book course, done⟩

/-- **After the last round** every declaration is settled. -/
theorem perm_of_run_eq_ok (h : p.run backend b options p.schedule.order = .ok () s) :
    (s.defined ++ s.failed).Perm p.declarations.names := by
  obtain ⟨hs, -, hdone⟩ := of_run_eq_ok h
  refine perm_names hs fun x hx => ?_
  obtain ⟨i, hi, d, hd, rfl⟩ := exists_mem_order hx
  exact hdone i hi d hd

/-- Where all is settled, what is concluded is no internal failure. -/
theorem conclude_ne_internal (p : Plan m) (backend : Backend β) (options : Options)
    (h : (s.defined ++ s.failed).Perm p.declarations.names) (e : Internal) :
    conclude (p.context backend options) (stageGraph p.declarations) p.schedule s
      ≠ .error (.fatal (.internal e)) := by
  have hlength : s.defined.length + s.failed.length = p.declarations.count := by
    rw [← List.length_append, h.length_eq]
    exact List.length_map _
  rw [conclude, if_neg (not_not.mpr hlength)]
  split
  · simp
  · simp

end Plan

/-- **The internal failures of a compilation** are of two kinds. -/
theorem internal_cases {e : Internal}
    (h : (compileWith m backend b options).result = .error (.fatal (.internal e))) :
    (∃ x, e = .evaluatedTooEarly x) ∨ ∃ x, e = .reentrant x := by
  obtain ⟨p⟩ := nonempty_plan_of_fatal h (fun c hc => by cases hc)
  have hp := p.finishes backend b options
  generalize compileWith m backend b options = o at h hp
  generalize p.last backend b options = s at hp
  cases hp with
  | through sound idle settled => exact absurd h (p.conclude_ne_internal backend options settled e)
  | crashed sound crash =>
    obtain rfl := Failure.fatal.inj (Except.error.inj h)
    cases crash with
    | early known undefined leaves => exact .inl ⟨_, rfl⟩
    | reentrant inProgress leaves => exact .inr ⟨_, rfl⟩

end Compile

/-! ## Every declaration is settled -/

/-- **Every declaration is settled, in one way.** A compilation never finds one
defined a second time, or analyzed and without a type, or left over in the end,
and it can always introduce the built-ins. When the loop is through, each
declaration was defined or refused, and none was both.

The loop takes up every declaration, as each has a place in the schedule. What
is taken up is settled afterwards, or the analysis has crashed. A declaration
that is defined and one that is refused are in different phases, and none comes
back from either. The internal failures that are excluded are those that would
need a phase that does not exist. -/
theorem settled_apart (m : Source.Module) (backend : Backend β) (b : β) (options : Options) :
    (∀ x, (compileWith m backend b options).result
      ≠ .error (.fatal (.internal (.alreadyDefined x)))) ∧
    (∀ x, (compileWith m backend b options).result
      ≠ .error (.fatal (.internal (.missingType x)))) ∧
    (∀ settled declarations, (compileWith m backend b options).result
      ≠ .error (.fatal (.internal (.unsettled settled declarations)))) ∧
    (∀ message, (compileWith m backend b options).result
      ≠ .error (.fatal (.internal (.other message)))) ∧
    ∀ (p : Compile.Plan m) (s : State β),
      p.run backend b options p.schedule.order = .ok () s →
        s.defined.Disjoint s.failed ∧ s.defined.Nodup ∧ s.failed.Nodup ∧
          ∀ x, x ∈ p.declarations.names ↔ x ∈ s.defined ∨ x ∈ s.failed := by
  have hinternal (e : Internal)
      (h : (compileWith m backend b options).result = .error (.fatal (.internal e))) :=
    Compile.internal_cases h
  refine ⟨fun x h => ?_, fun x h => ?_, fun k n h => ?_, fun message h => ?_, fun p s h => ?_⟩
  · simpa using hinternal _ h
  · simpa using hinternal _ h
  · simpa using hinternal _ h
  · simpa using hinternal _ h
  · have hperm := Compile.Plan.perm_of_run_eq_ok h
    have hnodup := hperm.nodup_iff.mpr p.declarations.distinct
    rw [List.nodup_append'] at hnodup
    refine ⟨hnodup.2.2, hnodup.1, hnodup.2.1, fun x => ?_⟩
    rw [← hperm.mem_iff, List.mem_append]

/-- A constant with an undefined name in it, one that refers to it, and one with
nothing wrong. -/
def infected : Source.Module :=
  [.constant
    { span := .nowhere, name := .unplaced "second", ascription := .var (.unplaced "Int")
      body := .ofExpr (.var (.unplaced "first")) },
    .constant
    { span := .nowhere, name := .unplaced "first", ascription := .var (.unplaced "Int")
      body := .ofExpr (.var (.unplaced "oops")) },
    .constant
    { span := .nowhere, name := .unplaced "sane", ascription := .var (.unplaced "Int")
      body := .ofExpr (.int .nowhere 1) }]

/-- The loop over that module. -/
theorem run_infected : ∃ (p : Compile.Plan infected) (s : State (Buffer Unit)),
    p.run (Buffer.backend none) { evaluator := () } {} p.schedule.order = .ok () s ∧
      s.failed = ["first", "second"] ∧ s.reports.map (·.inside) = [some "first"] := by
  have hrun : (Compile.Plan.of? infected).map (fun p =>
      match p.run (Buffer.backend none) { evaluator := () } {} p.schedule.order with
      | .ok () s => some (s.failed, s.reports.map (·.inside))
      | .error _ _ => none) = some (some (["first", "second"], [some "first"])) := by
    decide +kernel
  obtain ⟨p, -, hp⟩ := Option.map_eq_some_iff.mp hrun
  cases h : p.run (Buffer.backend none) { evaluator := () } {} p.schedule.order with
  | error e s =>
    rw [h] at hp
    cases hp
  | ok a s =>
    rw [h] at hp
    obtain ⟨hfailed, hreports⟩ := Prod.mk.inj (Option.some.inj hp)
    exact ⟨p, s, h, hfailed, hreports⟩

/-- Of the three one is defined and two are refused. -/
theorem infected_settled : ∃ (p : Compile.Plan infected) (s : State (Buffer Unit)),
    p.run (Buffer.backend none) { evaluator := () } {} p.schedule.order = .ok () s ∧
      s.failed = ["first", "second"] ∧ s.defined.Disjoint s.failed ∧
      ∀ x, x ∈ p.declarations.names ↔ x ∈ s.defined ∨ x ∈ s.failed := by
  obtain ⟨p, s, h, hfailed, -⟩ := run_infected
  obtain ⟨-, -, -, -, hsettled⟩ :=
    settled_apart infected (Buffer.backend none) { evaluator := () } {}
  obtain ⟨hdisjoint, -, -, hall⟩ := hsettled p s h
  exact ⟨p, s, h, hfailed, hdisjoint, hall⟩

/-! ## Nothing is refused in silence -/

/-- **What was refused is accounted for**, whenever the loop goes from one
declaration to the next: something was reported if and only if something was
refused, reports are made by declarations that were refused and by each of them
once at most, and a declaration that was refused without a report of its own has
looked up another that was refused and has no type. So a compilation succeeds
only if every declaration was defined.

It is the act that refuses a declaration which accounts for it. Either it
reports something, or the declaration has looked up one that was refused before
and has no type. Types of such declarations are not published later. So what an
account is made of does not change, and it can be made up at any time. -/
theorem failures_accounted (m : Source.Module) (backend : Backend β) (b : β) (options : Options) :
    (∀ (p : Compile.Plan m) (n : Nat) (s : State β),
      p.run backend b options (p.schedule.order.take n) = .ok () s →
        (s.diagnostics = [] ↔ s.failed = []) ∧
        s.diagnostics.length ≤ s.failed.length ∧
        (∀ r ∈ s.reports, ∃ x ∈ s.failed, r.inside = some x) ∧
        (s.reports.map (·.inside)).Nodup ∧
        ∀ x ∈ s.failed, ¬Reports s x → Inherits s x) ∧
    ∀ c, (compileWith m backend b options).result = .ok c →
      c.order.Perm ((Declarations.entriesOf m).map Declaration.name) := by
  refine ⟨fun p n s h => ?_, fun c hc => ?_⟩
  · obtain ⟨hs, haccounted, -⟩ := Compile.Plan.of_run_eq_ok h
    refine ⟨⟨hs.record.reported, fun hnil => ?_⟩, haccounted.length_le, haccounted.inside,
      haccounted.once, haccounted.inherited⟩
    have hle := haccounted.length_le
    rw [hnil] at hle
    exact List.eq_nil_of_length_eq_zero (Nat.le_zero.mp hle)
  · obtain ⟨p⟩ := Compile.nonempty_plan_of_ok hc
    obtain ⟨-, -, -, hperm, -, horder, -, -⟩ := (p.finishes backend b options).of_result_eq_ok hc
    rw [horder, ← p.entries_eq]
    exact hperm

/-- One thing is reported. The constant that has reported nothing refers to the
one that has. -/
theorem infected_accounted : ∃ (p : Compile.Plan infected) (s : State (Buffer Unit)),
    p.run (Buffer.backend none) { evaluator := () } {} p.schedule.order = .ok () s ∧
      s.failed = ["first", "second"] ∧ s.diagnostics.length = 1 ∧ ¬Reports s "second" ∧
      Inherits s "second" := by
  obtain ⟨p, s, h, hfailed, hreports⟩ := run_infected
  have hall : p.run (Buffer.backend none) { evaluator := () } {}
      (p.schedule.order.take p.schedule.order.length) = .ok () s := by rwa [List.take_length]
  obtain ⟨-, -, -, -, hinherited⟩ :=
    (failures_accounted infected (Buffer.backend none) { evaluator := () } {}).1 p _ s hall
  have hsilent : ¬Reports s "second" := by
    rintro ⟨r, hr, hinside⟩
    have hmem := List.mem_map_of_mem (f := (·.inside)) hr
    rw [hreports, hinside] at hmem
    simp at hmem
  have hlength := congrArg List.length hreports
  rw [List.length_map] at hlength
  refine ⟨p, s, h, hfailed, ?_, hsilent, hinherited "second" (by simp [hfailed]) hsilent⟩
  rw [State.diagnostics, List.length_map]
  exact hlength

end Stagewise
