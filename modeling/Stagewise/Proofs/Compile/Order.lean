import Stagewise.Proofs.Compile.Emission

/-!
# The order of definitions

A module that compiles has its declarations defined in an order, and it is known
which of them refer to which. The schedule has something to say about that
order, and so has the analysis, which takes up a declaration as soon as it is
needed, wherever it is scheduled. What comes of both is simple: what is referred
to is defined first, unless it is a function that refers back
(`defined_first_or_circular`).
-/

namespace Stagewise

open Analysis Relation

variable {β : Type} {m : Source.Module}

/-- **What is referred to is defined first**, unless it is a function from which
what refers to it is reached by references.

A declaration is settled when it is first referred to. If that gets through then
it is defined before the one that refers to it. It does not get through in two
cases. It may be refused, but then nothing is compiled. Or it may be under
analysis, so that it cannot be settled now. Then there is a chain of references
from it to the one that refers to it, and since its type is known it is a
function. -/
theorem defined_first_or_circular (m : Source.Module) (backend : Backend β) (b : β)
    (options : Options) (c : Compiled) (hc : (compileWith m backend b options).result = .ok c)
    (user used : String) (h : (user, used) ∈ c.references) :
    [used, user].Sublist c.order ∨ (∃ f, .function f ∈ m ∧ f.name.text = used) ∧
      ReflTransGen (fun x y => (x, y) ∈ c.references) used user := by
  obtain ⟨p⟩ := Compile.nonempty_plan_of_ok hc
  obtain ⟨sound, hidle, hfailed, hperm, -, horder, -, hreferences⟩ :=
    (p.finishes backend b options).of_result_eq_ok hc
  rw [hreferences] at h ⊢
  rw [horder]
  obtain hordered | hinfix := sound.references.ordered user used h
  · cases hordered with
    | failed refused =>
      rw [hfailed] at refused
      cases refused
    | before order => exact .inl order
    | ahead defined undefined =>
      exact absurd (hperm.mem_iff.mpr (sound.references.inside user used h)) undefined
    | circular function back => exact .inr ⟨p.exists_function function, back⟩
  · rw [hidle] at hinfix
    simp at hinfix

/-- What refers to another of the three is defined after it. -/
theorem relay_in_order : ∃ c,
    (compileWith relay (Buffer.backend none) { evaluator := () } {}).result = .ok c ∧
      ("total", "twice") ∈ c.references ∧
      (["twice", "total"].Sublist c.order ∨
        (∃ f, .function f ∈ relay ∧ f.name.text = "twice") ∧
          ReflTransGen (fun x y => (x, y) ∈ c.references) "twice" "total") := by
  have hok : (match (compileWith relay (Buffer.backend none) { evaluator := () } {}).result with
      | .ok c => decide (("total", "twice") ∈ c.references)
      | .error _ => false) = true := by decide +kernel
  cases hc : (compileWith relay (Buffer.backend none) { evaluator := () } {}).result with
  | error failure =>
    rw [hc] at hok
    cases hok
  | ok c =>
    rw [hc] at hok
    have h := of_decide_eq_true hok
    exact ⟨c, rfl, h, defined_first_or_circular relay _ _ _ c hc "total" "twice" h⟩

end Stagewise
