import Stagewise.Proofs.Compile.Run
import Stagewise.Proofs.Value.RoundTrip

/-!
# Diagnostics that are dropped

What is found wrong with a module is kept until all declarations are settled,
and is then what the compilation ends with. It would be so in every case if
nothing could stop the analysis before that, other than the backend. But two
things can, and what was found wrong is lost by them.

A function has its type published before its body is checked, and keeps it if
the body is refused. Whoever refers to it does not notice. If it has to run,
because an ascription calls it, then it turns out that it was never defined, and
that counts as a defect of the compiler (`pick_drops_diagnostic`). The other one
is a circle of references that the schedule did not see.

There is no third (`reported_unless_masked`): if the backend takes all it is
told and evaluates ascriptions to types, then everything that is found wrong at
any time is reported, unless a function that was refused had to run, or a circle
was met.
-/

namespace Stagewise

open Analysis Relation

variable {β : Type} {ctx : Context β} {m : Source.Module} {b : β} {s t : State β} {f : Fatal}
  {x : String}

namespace Compile

/-!
## What can stop an analysis

A crash has a reason, and `Crash` lists them all. Those that are the backend's
are ruled out by assumption. In the rest, what is needed is under analysis, and
then it has led to the declaration that needs it by references, or it was
refused.
-/

/-- **A backend that serves does not stop an analysis.** -/
theorem exists_internal (sound : Sound ctx b s) (crash : Crash ctx s f t)
    (hserves : ctx.backend.ServesAll b t.transcript) : ∃ e, f = .internal e := by
  have hserves' {said : Exchange} (hsaid : t.transcript = s.transcript ++ [said]) :
      ctx.backend.Serves s.backend said :=
    sound.record.backend ▸ hserves s.transcript said [] hsaid
  cases crash with
  | refused due answer leaves =>
    have haccepted := (hserves' leaves.transcript).1
    exact absurd (haccepted.symm.trans answer) (by simp)
  | misanswered due answer leaves =>
    have htype := (hserves' leaves.transcript).2 _ rfl
    rw [answer] at htype
    cases htype
  | misfolded typed type value other leaves =>
    have htype := Fold.hasType_term sound.record.agrees_knows _ typed _ value
    obtain ⟨ty, rfl⟩ := (type ▸ htype).eq_type
    exact absurd rfl (other ty)
  | early known undefined leaves => exact ⟨_, rfl⟩
  | reentrant inProgress leaves => exact ⟨_, rfl⟩

/-- **What is under analysis and referred to by the declaration at hand is on a
circle.** -/
theorem transGen_of_mem_active (sound : Sound ctx b s) (hx : x ∈ s.active)
    {rs : List Resolution} (hle : s.resolutions <+: rs)
    (hrefers : ∀ d ∈ s.active.head?, Refers rs d x) : TransGen (Refers rs) x x := by
  cases htop : s.active.head? with
  | none =>
    rw [List.head?_eq_none_iff.mp htop] at hx
    cases hx
  | some a =>
    have hreaches := reaches_of_isChain sound.references.chained htop hx
    exact .tail' (reaches_mono hle hreaches) (hrefers a htop)

/-- A type that is being computed is that of a declaration under analysis. -/
theorem mem_active_of_mem_inProgress (sound : Sound ctx b s) (hx : x ∈ s.inProgress) :
    x ∈ s.active := by
  obtain ⟨p, hp⟩ := sound.book.standing x
  have hopen := hp.inProgress.mp hx
  cases p with
  | begun | announced => exact hp.active.mpr rfl
  | untouched | settled | dropped | abandoned => cases hopen

/-! ## What is reported -/

/-- **What drops diagnostics**, in the last state of an analysis. -/
inductive Masks (m : Source.Module) (s : State β) : Internal → Prop where
  /-- A function had to run that was refused after it had been declared. -/
  | abandoned {x : String} (function : ∃ f, .function f ∈ m ∧ f.name.text = x)
    (refused : x ∈ s.failed) (declared : history s.transcript x = [.declare]) :
    Masks m s (.evaluatedTooEarly x)
  /-- Something had to run that was reached from its own definition. -/
  | early {x : String} (circular : TransGen (Refers s.resolutions) x x) :
    Masks m s (.evaluatedTooEarly x)
  /-- The type of something was needed that was reached from its own
  definition. -/
  | reentrant {x : String} (circular : TransGen (Refers s.resolutions) x x) :
    Masks m s (.reentrant x)

/-- **An analysis meets a defect of the compiler** for two reasons. -/
theorem masks_of_internal {p : Plan m} {backend : Backend β} {options : Options} {e : Internal}
    (sound : Sound (p.context backend options) b s)
    (crash : Crash (p.context backend options) s (.internal e) t) : Masks m t e := by
  cases crash with
  | early known undefined leaves =>
    have hle : s.resolutions <+: t.resolutions := leaves.resolutions ▸ List.prefix_append ..
    obtain ⟨hfunction, hhistory, hfailed | hactive⟩ :=
      sound.book.function_of_not_mem_defined (Option.isSome_of_eq_some known.1) undefined
    · refine .abandoned (p.exists_function hfunction) (leaves.failed ▸ hfailed) ?_
      rw [leaves.transcript, List.append_nil, hhistory]
    · exact .early (transGen_of_mem_active sound hactive hle fun d hd => (known.2 d hd).mono hle)
  | reentrant inProgress leaves =>
    have hle : s.resolutions <+: t.resolutions := leaves.resolutions ▸ List.prefix_append ..
    have hactive := mem_active_of_mem_inProgress sound inProgress
    refine .reentrant (transGen_of_mem_active sound hactive hle fun d hd => ?_)
    rw [leaves.resolutions, show s.active.head? = some d from hd]
    exact refers_append_global

/-- These are the only reasons to stop, if the backend serves. -/
theorem masks_of_crash {p : Plan m} {backend : Backend β} {options : Options}
    (sound : Sound (p.context backend options) b s)
    (crash : Crash (p.context backend options) s f t)
    (hserves : backend.ServesAll b t.transcript) : ∃ e, f = .internal e ∧ Masks m t e := by
  obtain ⟨e, rfl⟩ := exists_internal sound crash hserves
  exact ⟨e, rfl, masks_of_internal sound crash⟩

/-- A loop that is through reports what was found wrong. -/
theorem conclude_eq_diagnostics {p : Plan m} {backend : Backend β} {options : Options}
    (settled : (s.defined ++ s.failed).Perm p.declarations.names) {d : Diagnostic}
    (hd : d ∈ s.diagnostics) :
    conclude (p.context backend options) (stageGraph p.declarations) p.schedule s
      = .error (.diagnostics s.diagnostics) := by
  have hdiagnostics : s.diagnostics.isEmpty = false :=
    List.isEmpty_eq_false_iff.mpr (List.ne_nil_of_mem hd)
  rw [conclude, if_neg (not_not.mpr (Plan.length_of_settled settled)), hdiagnostics]
  rfl

end Compile

/-- **What is found wrong is reported**, whenever in the analysis it is found,
by a compilation whose backend takes all it is told and evaluates ascriptions to
types. The exception is a compilation that ends in an internal failure, and
there are two reasons for that: a function had to run that had been refused, or
there is a circle of references.

The loop goes on after something was found wrong, and ends in one of two ways.
If it is through, then what was found is what it ends with. If it crashes then
it is not the backend that is to blame, as it serves. So it is a defect of the
compiler, and by the books there are two: a definition is needed of a function
that is not defined, and this one was refused or is under analysis, or a type is
needed that is being computed. -/
theorem reported_unless_masked (m : Source.Module) (backend : Backend β) (b : β)
    (options : Options) (p : Compile.Plan m) (n : Nat) (d : Diagnostic)
    (hserves : backend.ServesAll b (compileWith m backend b options).transcript)
    (hd : d ∈ (p.after backend b options n).diagnostics) :
    (∃ ds, (compileWith m backend b options).result = .error (.diagnostics ds) ∧ d ∈ ds) ∨
      ∃ e, (compileWith m backend b options).result = .error (.fatal (.internal e)) ∧
        Compile.Masks m (p.last backend b options) e := by
  have hlast := (p.diagnostics_after_le backend b options n).subset hd
  have hp := p.finishes backend b options
  generalize compileWith m backend b options = o at hserves hp
  generalize p.last backend b options = s at hlast hp
  cases hp with
  | through sound idle settled =>
    exact .inl ⟨s.diagnostics, Compile.conclude_eq_diagnostics settled hlast, hlast⟩
  | crashed sound crash =>
    obtain ⟨e, rfl, hmasks⟩ := Compile.masks_of_crash sound crash hserves
    exact .inr ⟨e, rfl, hmasks⟩

/-! ## Two modules with an undefined name -/

/-- A backend that takes all it is told, and evaluates everything to a type. -/
def obliging : Backend (Buffer Unit) :=
  Buffer.backend (some fun _ e => (.ok (Value.type .int).encode, e))

/-- It serves whatever is asked. -/
theorem servesAll_obliging (b : Buffer Unit) (transcript : List Exchange) :
    obliging.ServesAll b transcript := by
  intro before e after _
  have hdecode : Value.decode [] (Value.type .int).encode = .ok (.type .int) :=
    Value.decode_encode _
  refine ⟨?_, fun t _ => ?_⟩
  · cases e.kind <;> rfl
  · unfold Backend.typeAnswered
    rw [show (obliging.evaluate e.text _).1 = .ok (Value.type .int).encode from rfl]
    simp only [hdecode, Option.isSome_some]

/-- A constant with an undefined name in it, and one with nothing wrong. -/
def spoiled : Source.Module :=
  [.constant
    { span := .nowhere, name := .unplaced "bad", ascription := .var (.unplaced "Int")
      body := .ofExpr (.var (.unplaced "oops")) },
    .constant
    { span := .nowhere, name := .unplaced "good", ascription := .var (.unplaced "Int")
      body := .ofExpr (.int .nowhere 1) }]

/-- The undefined name is found in the middle of the loop, and is what the
compilation ends with. -/
theorem spoiled_reported : ∃ (p : Compile.Plan spoiled) (ds : List Diagnostic),
    .undefinedVariable "oops" .nowhere ∈
      (p.after obliging { evaluator := () } {} 10).diagnostics ∧
    (compileWith spoiled obliging { evaluator := () } {}).result = .error (.diagnostics ds) ∧
    .undefinedVariable "oops" .nowhere ∈ ds := by
  have hfound : (Compile.Plan.of? spoiled).map
      (fun p => (p.after obliging { evaluator := () } {} 10).diagnostics)
        = some [.undefinedVariable "oops" .nowhere] := by decide +kernel
  have hkind : (match (compileWith spoiled obliging { evaluator := () } {}).result with
      | .error (.diagnostics _) => true
      | _ => false) = true := by decide +kernel
  obtain ⟨p, -, hp⟩ := Option.map_eq_some_iff.mp hfound
  have hd := hp ▸ List.mem_singleton_self (Diagnostic.undefinedVariable "oops" .nowhere)
  obtain ⟨ds, hds, hmem⟩ | ⟨e, he, -⟩ := reported_unless_masked spoiled obliging
    { evaluator := () } {} p 10 _ (servesAll_obliging _ _) hd
  · exact ⟨p, ds, hd, hds, hmem⟩
  · rw [he] at hkind
    cases hkind

/-- A function with an undefined name in it, and a constant whose type is
computed by it. -/
def pick : Source.Module :=
  [.function
    { span := .nowhere, name := .unplaced "pick", params := [], result := .var (.unplaced "Type")
      body := .ofExpr (.var (.unplaced "oops")) },
    .constant
    { span := .nowhere, name := .unplaced "a"
      ascription := .call .nowhere (.var (.unplaced "pick")) []
      body := .ofExpr (.int .nowhere 1) }]

/-- **A diagnostic that is dropped**, though the backend does all it is asked
to. -/
theorem pick_drops_diagnostic :
    (∃ p : Compile.Plan pick, .undefinedVariable "oops" .nowhere ∈
      (p.last obliging { evaluator := () } {}).diagnostics) ∧
    (∀ transcript, obliging.ServesAll { evaluator := () } transcript) ∧
    (compileWith pick obliging { evaluator := () } {}).result
      = .error (.fatal (.internal (.evaluatedTooEarly "pick"))) := by
  have hfound : (Compile.Plan.of? pick).map
      (fun p => (p.last obliging { evaluator := () } {}).diagnostics)
        = some [.undefinedVariable "oops" .nowhere] := by decide +kernel
  have hfailure : (match (compileWith pick obliging { evaluator := () } {}).result with
      | .error failure => some failure
      | .ok _ => none) = some (.fatal (.internal (.evaluatedTooEarly "pick"))) := by decide +kernel
  obtain ⟨p, -, hp⟩ := Option.map_eq_some_iff.mp hfound
  refine ⟨⟨p, hp ▸ List.mem_singleton_self _⟩, servesAll_obliging _, ?_⟩
  cases hresult : (compileWith pick obliging { evaluator := () } {}).result with
  | error failure =>
    rw [hresult] at hfailure
    rw [Option.some.inj hfailure]
  | ok c =>
    rw [hresult] at hfailure
    cases hfailure

end Stagewise
