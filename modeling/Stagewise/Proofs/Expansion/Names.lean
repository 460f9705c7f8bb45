import Stagewise.Proofs.Expansion.Grammar
import Stagewise.Proofs.Source.Parts

/-!
# Trees that came of expansions

An expander returns an expression as data, and the forms that are read as
expressions are few. There is none for closures, so an expression that was read
has neither ascriptions nor locals of its own: all there is in it that refers to
anything are names (`onlyNames_of_decode`).
-/

namespace Stagewise

namespace Expansion

open Source (Expr Place)

/-- **A tree of names**: its parts are names, so there is no ascription in
it. -/
def OnlyNames (e : Expr Empty) : Prop := ∀ p, ∀ q ∈ e.parts p, ∃ n, q.2 = .name n

/-- The parts of several trees of names are names. -/
theorem onlyNames_all {es : List (Expr Empty)} {p : Place} (h : ∀ e ∈ es, OnlyNames e) :
    ∀ q ∈ Source.partsAll p es, ∃ n, q.2 = .name n := by
  intro q hq
  obtain ⟨e, he, hq⟩ := Source.mem_partsAll.mp hq
  exact h e he p q hq

/-- The elements of a tuple of names are trees of names. -/
theorem OnlyNames.spread {e : Expr Empty} (h : OnlyNames e) : ∀ e' ∈ spread e, OnlyNames e' := by
  unfold Expansion.spread
  split
  · intro e' he' p q hq
    exact h p q (Source.mem_partsAll.mpr ⟨e', he', hq⟩)
  · exact List.forall_mem_singleton.mpr h

/-- A reader that goes on succeeded with what came before. -/
theorem exists_of_bind_eq_ok {ε α γ : Type} {x : Except ε α} {f : α → Except ε γ} {c : γ}
    (h : x >>= f = .ok c) : ∃ a, x = .ok a ∧ f a = .ok c := by
  cases x with
  | error e => cases h
  | ok a => exact ⟨a, rfl, h⟩

/-- **What data stands for is a tree of names.** -/
theorem onlyNames_of_encodes {ids : List Ty} {span : Span} {d : Data} {e : Expr Empty}
    (h : Encodes ids span d e) : OnlyNames e := by
  have hleaf {e : Expr Empty} (he : ∀ p, e.parts p = []) : OnlyNames e := by
    intro p q hq
    rw [he] at hq
    cases hq
  -- by the rules, and for lists by those of their elements
  refine @Encodes.rec ids span (fun _ e _ => OnlyNames e) (fun _ es _ => ∀ e ∈ es, OnlyNames e)
    ?int ?float ?bool ?string ?typeLiteral ?var ?call ?tuple ?list ?unary ?binary ?nil ?cons d e h
  case int | float | bool | string | typeLiteral =>
    intros
    exact hleaf fun _ => rfl
  case var =>
    intro _ name _ _ p q hq
    exact ⟨_, congrArg Prod.snd (List.mem_singleton.mp hq)⟩
  case call =>
    intro _ _ _ callee argument _ _ _ _ _ hcallee hargument p
    exact List.forall_mem_append.mpr ⟨hcallee p, onlyNames_all hargument.spread⟩
  case tuple | list =>
    intro _ _ es _ _ _ hes p
    exact onlyNames_all hes
  case unary =>
    intro _ op _ operand _ _ _ _ hoperand
    exact hoperand
  case binary =>
    intro _ op _ _ left right _ _ _ _ _ _ hleft hright p
    exact List.forall_mem_append.mpr ⟨hleft p, hright p⟩
  case nil => exact fun e he => absurd he List.not_mem_nil
  case cons =>
    intro _ e _ es _ _ he hes
    exact List.forall_mem_cons.mpr ⟨he, hes⟩

/-- **The expression that an expander returned is a tree of names.** -/
theorem onlyNames_of_decode {ids : List Ty} {span : Span} {d : Data} {message : String}
    {e : Expr Empty} (h : decode ids span d = .ok (message, e)) : OnlyNames e := by
  obtain ⟨⟨tag, fields⟩, -, h⟩ := exists_of_bind_eq_ok h
  dsimp only at h
  split at h
  · cases h
  split at h
  · obtain ⟨v, -, h⟩ := exists_of_bind_eq_ok h
    split at h
    · obtain ⟨e', he', h⟩ := exists_of_bind_eq_ok h
      obtain rfl : e' = e := congrArg Prod.snd (Except.ok.inj h)
      exact onlyNames_of_encodes (encodes_of_decodeExpr he')
    · cases h
  · cases h

end Expansion

end Stagewise
