import Stagewise.Proofs.Compile.Emission
import Stagewise.Proofs.Compile.Lookups

/-!
# Requests that are not closed

The backend evaluates ascriptions and runs expanders, and all it knows are
declarations. So what it is asked to evaluate should be closed. But an
ascription is checked in the scope where it is written, and a function can have
a local of type `Type`. Nothing looks for locals before the request is made
(`askew_sends_local`).

The only locals in a request are those in scope where the ascription is written,
and if there is nothing to expand in it then it mentions them itself. An
expander is a declaration, unless the name by which it is invoked is that of a
local (`closed_unless_local`).
-/

namespace Stagewise

open Analysis

open Source (freeNames)

variable {β : Type} {m : Source.Module}

namespace Compile.Plan.Finishes

variable {p : Plan m} {backend : Backend β} {b : β} {options : Options} {s : State β}
  {o : Outcome β}

/-- What a request mentions is declared in the module. -/
theorem exists_mentioned (h : Finishes p backend b options s o) {e : Exchange}
    (he : e ∈ o.transcript) {x : String} (hx : x ∈ e.subject.mentions) :
    ∃ d ∈ Declarations.entriesOf m, d.name = x := by
  obtain ⟨before, after, hsplit⟩ := List.append_of_mem he
  obtain ⟨e', hmem, hkind, -, hdeclares⟩ := (h.attested before e after hsplit).2 x hx
  have hmem : e' ∈ o.transcript := hsplit ▸ List.mem_append_left _ hmem
  obtain ⟨y, hy, habout⟩ := h.about hmem (by rw [hkind]; exact Request.noConfusion)
  obtain rfl := Option.some.inj (hdeclares.symm.trans habout)
  obtain ⟨d, hd, hname⟩ := List.mem_map.mp hy
  exact ⟨d, p.entries_eq ▸ hd, hname⟩

end Compile.Plan.Finishes

/-- **Requests are closed, unless they come from under a local.** What is
evaluated is an ascription of a declaration of the module, or an expander that
is invoked in one. It is the declaration that has asked when this was said, and
the request is made in the state in which the ascription has been checked, or
the expander looked up.

All declarations that are mentioned are in the module. What is loose in an
ascription is in scope where it is written, and if there is nothing to expand
then all that is mentioned is named in it. An expander is the local of its name
if there is one in scope, and otherwise it is the declaration of that name. The
reason is that an ascription is checked like any other expression, in the scope
of its place, and that only declarations are looked at before it is sent. -/
theorem closed_unless_local (m : Source.Module) (backend : Backend β) (b : β) (options : Options)
    (before : List Exchange) (e : Exchange) (after : List Exchange)
    (hsplit : (compileWith m backend b options).transcript = before ++ e :: after)
    (hkind : e.kind = .evaluate) :
    (∀ x ∈ e.subject.mentions, ∃ d ∈ Declarations.entriesOf m, d.name = x) ∧
    ∃ (p : Compile.Plan m) (start u : State β), p.Starts backend b options start ∧
      ∃ item ∈ m, Asks (p.context backend options) start (p.last backend b options) before item u ∧
      ∃ q : Source.Place,
        (∃ a t, (q, .ascription a) ∈ item.parts ∧ Ascribed (p.context backend options) a t u ∧
          e.subject = .term t ∧ e.text = t.lower.text ∧ (∀ x ∈ t.loose [], x ∈ q.bound) ∧
          (a.isPlain = true → (∀ x ∈ t.globals, x ∈ freeNames (a.parts q.ascription)) ∧
            ∀ x ∈ t.loose [], x ∈ freeNames (a.parts {}))) ∨
        (∃ i binding expected, (q, .invocation i) ∈ item.parts ∧
          LookedUp (p.context backend options) i.expander binding u ∧
          e.subject = .expansion binding ∧ e.text = expansionText i expected ∧
          (i.expander.text ∈ q.bound →
            ∃ l, binding = .lexical l ∧ l.name.text = i.expander.text) ∧
          (i.expander.text ∉ q.bound → binding = .global i.expander.text)) := by
  have he : e ∈ (compileWith m backend b options).transcript :=
    hsplit ▸ List.mem_append_right _ List.mem_cons_self
  obtain ⟨p⟩ := Compile.nonempty_plan_of_mem_transcript he
  refine ⟨fun x hx => (p.finishes backend b options).exists_mentioned he hx, p, ?_⟩
  obtain ⟨start, hstarts, hattended, -⟩ := p.exists_attended backend b options p.schedule.order
  rw [(p.finishes backend b options).transcript_eq] at hsplit
  obtain ⟨item, u, hasks, hsited⟩ := hattended before e after hsplit hkind
  refine ⟨start, u, hstarts, item, p.source_mem_entries.mp hasks.turn.entry, hasks, ?_⟩
  cases hsited with
  | @ascription q a t _ site ascribed defined known within covers =>
    refine ⟨q, .inl ⟨a, t, site, ascribed, rfl, rfl, within, fun hplain => ?_⟩⟩
    obtain ⟨hglobals, hloose⟩ := covers (Source.Expr.plainParts hplain _)
    exact ⟨hglobals, hloose {}⟩
  | @invocation q i binding expected _ site lookedUp hidden visible known =>
    refine ⟨q, .inr ⟨i, binding, expected, site, lookedUp, rfl, rfl, hidden, fun hfree => ?_⟩⟩
    exact (visible hfree).1

/-! ## A local that is used as a type -/

/-- A function with a variable whose type is a parameter. -/
def askew : Source.Module :=
  [.function
    { span := .nowhere, name := .unplaced "f"
      params := [⟨.unplaced "t", .var (.unplaced "Type")⟩], result := .var (.unplaced "Int")
      body :=
        ⟨.nowhere,
          [.bind .nowhere (.unplaced "x") (.var (.unplaced "t")) (.ofExpr (.int .nowhere 1)),
            .eval (.var (.unplaced "x"))]⟩ }]

/-- The terms that were to be evaluated: their texts, and the locals that are
loose in them. -/
def looseRequests (transcript : List Exchange) : List (String × List String) :=
  (transcript.filter (·.kind = .evaluate)).filterMap fun e =>
    match e.subject with
    | .term t => some (e.text, t.loose [])
    | _ => none

/-- What is listed was said. -/
theorem exists_of_mem_looseRequests {transcript : List Exchange} {text : String}
    {us : List String} (h : (text, us) ∈ looseRequests transcript) :
    ∃ e ∈ transcript, e.kind = .evaluate ∧ e.text = text ∧
      ∃ t, e.subject = .term t ∧ t.loose [] = us := by
  obtain ⟨⟨kind, text', subject, accepted⟩, hmem, heq⟩ := List.mem_filterMap.mp h
  obtain ⟨hmem, hkind⟩ := List.mem_filter.mp hmem
  cases subject with
  | term t =>
    obtain ⟨rfl, hloose⟩ := Prod.mk.inj (Option.some.inj heq)
    exact ⟨_, hmem, of_decide_eq_true hkind, rfl, t, rfl, hloose⟩
  | given | builtin | signature | body | literal | expansion => cases heq

/-- **The backend is asked to evaluate a parameter.** -/
theorem askew_sends_local :
    ∃ e ∈ (compileWith askew (Buffer.backend none) { evaluator := () } {}).transcript,
      e.kind = .evaluate ∧ e.text = "t" ∧ ∃ t, e.subject = .term t ∧ t.loose [] = ["t"] :=
  exists_of_mem_looseRequests (by decide +kernel)

/-- The type of the variable is written as the parameter `T`. This is what the
request has in it, and `T` is in scope where it is written, as the theorem says
it has to be. -/
theorem askew_local_in_scope :
    ∃ before e after,
      (compileWith askew (Buffer.backend none) { evaluator := () } {}).transcript
        = before ++ e :: after ∧
      e.kind = .evaluate ∧ ∃ item ∈ askew, ∃ q a t, (q, .ascription a) ∈ item.parts ∧
        e.subject = .term t ∧ t.loose [] = ["t"] ∧ "t" ∈ q.bound ∧
        (a.isPlain = true → "t" ∈ freeNames (a.parts {})) := by
  have hrequest : ("t", ["t"]) ∈ looseRequests
      (compileWith askew (Buffer.backend none) { evaluator := () } {}).transcript := by
    decide +kernel
  obtain ⟨e, he, hkind, -, t, hterm, hloose⟩ := exists_of_mem_looseRequests hrequest
  obtain ⟨before, after, hsplit⟩ := List.append_of_mem he
  obtain ⟨-, -, -, -, -, item, hitem, -, q, ⟨a, t', hsite, -, hterm', -, hwithin, hplain⟩ |
    ⟨i, binding, -, -, -, hexpands, -⟩⟩ :=
    closed_unless_local askew (Buffer.backend none) { evaluator := () } {} before e after hsplit
      hkind
  · obtain rfl := Subject.term.inj (hterm.symm.trans hterm')
    have ht : "t" ∈ t.loose [] := hloose ▸ List.mem_singleton_self _
    exact ⟨before, e, after, hsplit, hkind, item, hitem, q, a, t, hsite, hterm, hloose,
      hwithin _ ht, fun ha => (hplain ha).2 _ ht⟩
  · rw [hterm] at hexpands
    cases hexpands

end Stagewise
