import Stagewise.Proofs.Term.Typing
import Stagewise.Target.Lower
import Stagewise.Target.Printer

/-!
# Literals, folded or not

A literal reaches the target in one of two ways. It is lowered as a term, node
by node, with the type that each node carries; or it is folded first, and its
value is lowered at the type of the whole, which is all that is left of those
types. The texts are the same (`literals_lower_alike`), through any nesting of
tuples and lists, empty ones among them. The trees are not: the type that is a
tuple of types is written element by element in the one case, and as the
description of a single type in the other.

Lowering a value at a type cannot fail, and where the value does not have the
type something is written that says less than the value did. Where it has the
type nothing is lost. The text has a text for every element, through all levels
(`Value.written_lower`), and the value can be read off the tree that is printed
(`Value.value?_lower`).
-/

namespace Stagewise

/-!
## What a literal writes

The value that was lowered can be read back from the tree. This is how it is
said that nothing was lost, other than by saying that the text looks as it
should.
-/

namespace Target

mutual

/-- **The value that an expression writes**, if it is written as values are.
Braces after a type that is not a list's write none. -/
def Expr.value? : Expr → Option Value
  | .int n => some (.int n)
  | .float x => some (.float x)
  | .bool b => some (.bool b)
  | .string s => some (.string s)
  | .descriptor t => some (.type t)
  | .tuple elements => .tuple <$> Expr.values? elements
  | .braced (.list _) elements => .list <$> Expr.values? elements
  | .absent => some .nil
  | .braced _ _ | .name _ | .call _ _ | .tupleType _ | .unary _ _ | .binary _ _ _ | .lambda _ _ _ _
  | .block _ _ => none

/-- The values that several expressions write. -/
def Expr.values? : List Expr → Option (List Value)
  | [] => some []
  | e :: es => do
    let v ← e.value?
    let vs ← Expr.values? es
    return v :: vs

end

end Target

namespace Value

open Target (Expr)

mutual

/-- **A value is read off what it is lowered to**, at a type that it has. -/
theorem value?_lower (v : Value) (ty : Ty) (h : v.HasType ty) : (v.lower ty).value? = some v := by
  cases h with
  | int | float | bool | string | type | nil => rfl
  | @tuple vs ts h => rw [lower, Expr.value?, values?_lowerEach vs ts h]; rfl
  | @list vs t h => rw [lower, Expr.value?, values?_lowerAll vs t h]; rfl

theorem values?_lowerEach (vs : List Value) (ts : List Ty) (h : List.Forall₂ HasType vs ts) :
    Expr.values? (lowerEach vs ts) = some vs := by
  cases h with
  | nil => rfl
  | @cons v t vs ts hv hvs =>
    rw [lowerEach, Expr.values?, value?_lower v t hv, values?_lowerEach vs ts hvs]
    rfl

theorem values?_lowerAll (vs : List Value) (t : Ty) (h : ∀ v ∈ vs, v.HasType t) :
    Expr.values? (lowerAll vs t) = some vs := by
  cases vs with
  | nil => rfl
  | cons v vs =>
    obtain ⟨hv, hvs⟩ := List.forall_mem_cons.mp h
    rw [lowerAll, Expr.values?, value?_lower v t hv, values?_lowerAll vs t hvs]
    rfl

end

end Value

/-!
## What is written of a value

The same for the text. There is no reader of texts, and so a relation says what
a text has in it, level by level.
-/

mutual

/-- **A value is written as a text**, at a type. A tuple has the texts of all
its elements, each at its own type, and so has a list at the type that its
elements share. -/
inductive Value.Written : Ty → Value → String → Prop where
  | int (n : Int64) : Value.Written .int (.int n) (toString n.toInt)
  | float (x : Float) : Value.Written .float (.float x) (Decimal.Layout.program.text x)
  | bool (b : Bool) : Value.Written .bool (.bool b) (if b then "true" else "false")
  | string (s : String) :
    Value.Written .string (.string s) ("std::string(" ++ Data.quote s ++ ")")
  | type (t : Ty) : Value.Written .type (.type t) t.descriptor
  | nil : Value.Written .nil .nil ""
  | tuple {ts : List Ty} {vs : List Value} {texts : List String}
    (elements : Value.WrittenEach ts vs texts) :
    Value.Written (.tuple ts) (.tuple vs) ("std::make_tuple(" ++ Target.commas texts ++ ")")
  | list {t : Ty} {vs : List Value} {texts : List String}
    (elements : Value.WrittenEach (vs.map fun _ => t) vs texts) :
    Value.Written (.list t) (.list vs)
      ((Ty.list t).spelling ++ "\x7b" ++ Target.commas texts ++ "\x7d")

/-- Several values are written, each at a type of its own and as a text of its
own. -/
inductive Value.WrittenEach : List Ty → List Value → List String → Prop where
  | nil : Value.WrittenEach [] [] []
  | cons {t : Ty} {ts : List Ty} {v : Value} {vs : List Value} {text : String}
    {texts : List String} (first : Value.Written t v text)
    (others : Value.WrittenEach ts vs texts) :
    Value.WrittenEach (t :: ts) (v :: vs) (text :: texts)

end

namespace Value

open Target (Expr)

mutual

/-- **A value that is lowered at a type it has is written**, with nothing left
out. -/
theorem written_lower (v : Value) (ty : Ty) (h : v.HasType ty) :
    Written ty v (v.lower ty).text := by
  cases h with
  | int n => exact .int n
  | float x => exact .float x
  | bool b => exact .bool b
  | string s => exact .string s
  | type t => exact .type t
  | nil => exact .nil
  | @tuple vs ts h => exact .tuple (writtenEach_lowerEach vs ts h)
  | @list vs t h => exact .list (writtenEach_lowerAll vs t h)

theorem writtenEach_lowerEach (vs : List Value) (ts : List Ty) (h : List.Forall₂ HasType vs ts) :
    WrittenEach ts vs (Expr.texts (lowerEach vs ts)) := by
  cases h with
  | nil => exact .nil
  | @cons v t vs ts hv hvs => exact .cons (written_lower v t hv) (writtenEach_lowerEach vs ts hvs)

theorem writtenEach_lowerAll (vs : List Value) (t : Ty) (h : ∀ v ∈ vs, v.HasType t) :
    WrittenEach (vs.map fun _ => t) vs (Expr.texts (lowerAll vs t)) := by
  cases vs with
  | nil => exact .nil
  | cons v vs =>
    obtain ⟨hv, hvs⟩ := List.forall_mem_cons.mp h
    exact .cons (written_lower v t hv) (writtenEach_lowerAll vs t hvs)

end

end Value

/-!
## Literals

A literal that is lowered as a term is written with the types that its nodes
carry. If it is well typed then these are the types that the type of the whole
has for its parts, and lowering the value goes down the same types.
-/

namespace Term

mutual

/-- **Whether a term is a literal**: a number, a truth value, a text or a type,
or a tuple or list of literals. -/
def isLiteral : Term → Bool
  | ⟨_, _, node⟩ => node.isLiteral

/-- Whether a node is that of a literal. -/
def Node.isLiteral : Node → Bool
  | .int _ | .float _ | .bool _ | .string _ | .value (.type _) => true
  | .tuple elements | .list elements => allLiteral elements
  | .value _ | .var _ _ | .call _ _ | .unary _ _ | .binary _ _ _ | .closure _ _ _ => false

/-- Whether several terms are literals. -/
def allLiteral : List Term → Bool
  | [] => true
  | t :: ts => t.isLiteral && allLiteral ts

end

/-- **A term and a value are written alike**: the value has the type of the
term, and lowered at that type it has the text of the term. -/
structure WrittenAs (t : Term) (v : Value) : Prop where
  typed : v.HasType t.ty
  text : (v.lower t.ty).text = t.lower.text

variable {vs : List Value} {ts : List Term}

/-- Elements of a tuple are written alike, each at its own type. -/
theorem texts_lowerEach (h : List.Forall₂ WrittenAs ts vs) :
    Target.Expr.texts (Value.lowerEach vs (ts.map (·.ty))) = Target.Expr.texts (lowerAll ts) := by
  induction h with
  | nil => rfl
  | cons hv _ ih =>
    rw [List.map_cons, Value.lowerEach, lowerAll, Target.Expr.texts, Target.Expr.texts, hv.text, ih]

/-- So are the elements of a list, all at the type they share. -/
theorem texts_lowerAll {ty : Ty} (h : List.Forall₂ WrittenAs ts vs) (hty : ∀ t ∈ ts, t.ty = ty) :
    Target.Expr.texts (Value.lowerAll vs ty) = Target.Expr.texts (lowerAll ts) := by
  induction h with
  | nil => rfl
  | cons hv _ ih =>
    obtain ⟨rfl, hty⟩ := List.forall_mem_cons.mp hty
    rw [Value.lowerAll, lowerAll, Target.Expr.texts, Target.Expr.texts, hv.text, ih hty]

/-- Values written like terms of the type of types are types, and describing
them writes the terms. -/
theorem exists_types? (h : List.Forall₂ WrittenAs ts vs) (hty : ∀ t ∈ ts, t.ty = .type) :
    ∃ us, Fold.types? vs = some us ∧ Ty.descriptors us = Target.Expr.texts (lowerAll ts) := by
  induction h with
  | nil => exact ⟨[], rfl, rfl⟩
  | @cons t v ts vs hv _ ih =>
    obtain ⟨hty, htys⟩ := List.forall_mem_cons.mp hty
    obtain ⟨us, hus, htexts⟩ := ih htys
    obtain ⟨u, rfl⟩ := (hty ▸ hv.typed).eq_type
    refine ⟨u :: us, ?_, ?_⟩
    · rw [Fold.types?, List.mapM_cons, ← Fold.types?, hus]
      rfl
    · rw [Ty.descriptors, lowerAll, Target.Expr.texts, htexts, ← hv.text]
      rfl

variable {Γ : String → Ty → Prop} (known : Values)

mutual

/-- **A literal has a value**, and is written like it.

By recursion on the literal. The one case that is more than its parts is that of
a tuple of types: it has the type of types, its value is one type, and that type
is described with the descriptions of its elements inside. -/
theorem exists_writtenAs :
    (t : Term) → t.WellTyped Γ → t.isLiteral = true →
      ∃ v, Fold.term known t = some v ∧ t.WrittenAs v
  | ⟨_, _, .int n⟩, rfl, _ => ⟨.int n, rfl, .int n, rfl⟩
  | ⟨_, _, .float x⟩, rfl, _ => ⟨.float x, rfl, .float x, rfl⟩
  | ⟨_, _, .bool b⟩, rfl, _ => ⟨.bool b, rfl, .bool b, rfl⟩
  | ⟨_, _, .string s⟩, rfl, _ => ⟨.string s, rfl, .string s, rfl⟩
  | ⟨_, _, .value (.type t)⟩, ht, _ => ⟨.type t, rfl, ht, rfl⟩
  | ⟨span, ty, .tuple ts⟩, ⟨hts, hty⟩, hl => by
    obtain ⟨vs, hvs, hall⟩ := exists_writtenAs_all ts hts hl
    have hnode : Fold.term known ⟨span, ty, .tuple ts⟩
        = (if ty = .type then return .type (.tuple (← Fold.types? vs)) else return .tuple vs) := by
      rw [Fold.term, Fold.node, hvs]
      rfl
    obtain rfl | ⟨rfl, htypes⟩ := hty
    · refine ⟨.tuple vs, hnode, .tuple ?_, ?_⟩
      · exact List.forall₂_map_right_iff.mpr (hall.flip.imp fun _ _ h => h.typed)
      · exact congrArg (fun l => "std::make_tuple(" ++ Target.commas l ++ ")")
          (texts_lowerEach hall)
    · obtain ⟨us, hus, htexts⟩ := exists_types? hall htypes
      refine ⟨.type (.tuple us), ?_, .type _, congrArg Ty.describeTuple htexts⟩
      rw [hnode, if_pos rfl, hus]
      rfl
  | ⟨span, _, .list ts⟩, ⟨hts, ty, rfl, htypes⟩, hl => by
    obtain ⟨vs, hvs, hall⟩ := exists_writtenAs_all ts hts hl
    refine ⟨.list vs, ?_, .list ?_, ?_⟩
    · rw [Fold.term, Fold.node, hvs]
      rfl
    · exact Fold.hasType_of_forall₂ (hall.flip.imp fun _ _ h => h.typed) htypes
    · exact congrArg (fun l => (Ty.list ty).spelling ++ "\x7b" ++ Target.commas l ++ "\x7d")
        (texts_lowerAll hall htypes)

theorem exists_writtenAs_all :
    (ts : List Term) → WellTypedAll Γ ts → allLiteral ts = true →
      ∃ vs, Fold.terms known ts = some vs ∧ List.Forall₂ WrittenAs ts vs
  | [], _, _ => ⟨[], rfl, .nil⟩
  | t :: ts, ⟨ht, hts⟩, hl => by
    obtain ⟨hl, hls⟩ := Bool.and_eq_true_iff.mp hl
    obtain ⟨v, hv, hwritten⟩ := exists_writtenAs t ht hl
    obtain ⟨vs, hvs, hall⟩ := exists_writtenAs_all ts hts hls
    refine ⟨v :: vs, ?_, .cons hwritten hall⟩
    rw [Fold.terms, hv, hvs]
    rfl

end

end Term

/-- **Literals are written alike, folded or not.** A well typed literal has a
value whatever else is known, the value has the type of the literal, and lowered
at that type it has the text of the literal. Both write the value: no element of
a tuple is left out of the text, and not the elements altogether. So it is with
every value that is lowered at a type it has, and the value can be read off the
tree.

The type of a whole literal determines the types of its parts, and where the
term needs the type of a part to be written, the value is lowered at that
type. -/
theorem literals_lower_alike (known : Values) (Γ : String → Ty → Prop) :
    (∀ t : Term, t.WellTyped Γ → t.isLiteral = true →
      ∃ v, Fold.term known t = some v ∧ v.HasType t.ty ∧ (v.lower t.ty).text = t.lower.text ∧
        Value.Written t.ty v (v.lower t.ty).text ∧ Value.Written t.ty v t.lower.text) ∧
    ∀ (v : Value) (ty : Ty), v.HasType ty →
      Value.Written ty v (v.lower ty).text ∧ (v.lower ty).value? = some v := by
  refine ⟨fun t ht hl => ?_, fun v ty h => ⟨v.written_lower ty h, v.value?_lower ty h⟩⟩
  obtain ⟨v, hv, hwritten⟩ := t.exists_writtenAs known ht hl
  have htext := v.written_lower t.ty hwritten.typed
  exact ⟨v, hv, hwritten.typed, hwritten.text, htext, hwritten.text ▸ htext⟩

/-- A list of rows, one of them empty, beside the type that is a tuple of a type
and of the type that is the tuple of none. -/
def Term.rows : Term :=
  let made (ty : Ty) (node : Term.Node) : Term := ⟨.nowhere, ty, node⟩
  let row (elements : List Term) : Term := made (.list .int) (.list elements)
  made (.tuple [.list (.list .int), .type]) (.tuple
    [made (.list (.list .int)) (.list [row [], row [made .int (.int 1)]]),
      made .type (.tuple [made .type (.value (.type .bool)), made .type (.tuple [])])])

/-- Both have one text, through an empty list and through a tuple of types with
the empty one in it. -/
theorem rows_lower_alike :
    (Term.rows.WellTyped (fun _ _ => False) ∧ Term.rows.isLiteral = true) ∧
    Term.rows.lower.text
      = "std::make_tuple(std::vector<std::vector<int>>\x7bstd::vector<int>\x7b\x7d, "
      ++ "std::vector<int>\x7b1\x7d\x7d, "
      ++ "box(ty::TupleType\x7b .elements = \x7b ty::BoolType\x7b\x7d, "
      ++ "box(ty::TupleType\x7b .elements = \x7b  \x7d \x7d) \x7d \x7d))" ∧
    ∃ v, Fold.term [] Term.rows = some v ∧ (v.lower Term.rows.ty).value? = some v ∧
      (v.lower Term.rows.ty).text = Term.rows.lower.text ∧
      Value.Written Term.rows.ty v Term.rows.lower.text := by
  have htyped : Term.rows.WellTyped (fun _ _ => False) := by
    have hbool : (Value.type .bool).HasType .type := .type _
    simp [Term.rows, Term.WellTyped, Term.Node.WellTyped, Term.WellTypedAll, hbool]
  obtain ⟨hfold, hread⟩ := literals_lower_alike [] fun _ _ => False
  obtain ⟨v, hv, htype, htext, -, hwritten⟩ := hfold Term.rows htyped rfl
  exact ⟨⟨htyped, rfl⟩, by decide +kernel, v, hv, (hread v _ htype).2, htext, hwritten⟩

end Stagewise
