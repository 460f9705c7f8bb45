import Stagewise.Proofs.Analysis.Again
import Stagewise.Proofs.Source.Plain

/-!
# What hints are for

A hint settles what an expression leaves open, and that is only two things:
whether a tuple of types is meant to be a type, and what the elements of a list
are. A tuple hands the parts of its hint on to its elements, so both may be
settled from further out. A hint that says neither on the way is **inert**
(`Ty.isInert`), and checking with it is checking without one.

Where nothing was expected, the type that was found may be expected afterwards.
The hint settles what is settled anyhow then, and the term is the same
(`regains_inferred`).

All this is for trees with nothing to expand. An expander is told what is
expected, and may return whatever it likes.
-/

namespace Stagewise

open Source (Expr Invocation allPlain)

mutual

/-- **A hint that settles nothing**: it is no type of types or list, and if it
is a tuple then its elements are none either. -/
def Ty.isInert : Ty → Bool
  | .type | .list _ => false
  | .tuple elements => allInert elements
  | .int | .float | .bool | .string | .nil | .fn _ _ | .struct _ => true

/-- Several of them. -/
def allInert : List Ty → Bool
  | [] => true
  | t :: ts => t.isInert && allInert ts

end

namespace Analysis

variable {β μ : Type} {ctx : Context β} {demand : String → Check β Ty} {s t s' : State β} {k : Nat}
  {table : String → Except Backend.Fault Data}

/-!
## Hints that settle nothing

A hint is looked at in two places only. So the induction goes down the tree as
far as tuples are nested, with the hints that a tuple hands on, and in every
other case both sides are the same step. An inert hint has inert parts, which is
what keeps the induction going.
-/

/-- Without a hint, no element of a tuple has one. -/
theorem elementHints_none (n : Nat) : elementHints n none = List.replicate n none := rfl

theorem elementTy_none : elementTy none = none := rfl

/-- What an inert hint is for the elements of a tuple: nothing, or inert
hints. -/
theorem elementHints_of_isInert {h : Ty} (hh : h.isInert = true) (n : Nat) :
    elementHints n (some h) = List.replicate n none ∨
      ∃ ts : List Ty, ts.length = n ∧ allInert ts = true ∧
        elementHints n (some h) = ts.map some := by
  cases h with
  | type => cases hh
  | tuple ts =>
    by_cases hlength : ts.length = n
    · exact .inr ⟨ts, hlength, hh, if_pos hlength⟩
    · exact .inl (if_neg hlength)
  | _ => exact .inl rfl

section

variable {expand : Span → μ → Option Ty → Check β Term}

mutual

/-- **An inert hint makes no difference.** -/
theorem infer_of_isInert (e : Expr μ) (he : e.isPlain = true) {h : Ty} (hh : h.isInert = true) :
    infer ctx demand expand e (some h) = infer ctx demand expand e none := by
  cases e with
  | tuple span elements =>
    have hty (terms : List Term) : tupleTy (some h) terms = tupleTy none terms := by
      have hne : some h ≠ some .type := by
        rintro ⟨⟩
        cases hh
      simp [tupleTy, hne]
    have helements : inferEach ctx demand expand elements (elementHints elements.length (some h))
        = inferEach ctx demand expand elements (elementHints elements.length none) := by
      obtain hnone | ⟨ts, hlength, hts, hsome⟩ := elementHints_of_isInert hh elements.length
      · rw [hnone]
        rfl
      · rw [hsome]
        exact inferEach_of_allInert elements he ts hlength hts
    unfold infer
    rw [helements]
    simp only [hty]
  | list span elements =>
    have helement : elementTy (some h) = elementTy none := by
      cases h with
      | list element => cases hh
      | _ => rfl
    unfold infer
    rw [helement]
  | expand span m => cases he
  | _ => rfl
termination_by structural e

/-- Nor does it for the elements of a tuple. -/
theorem inferEach_of_allInert (es : List (Expr μ)) (hes : allPlain es = true) (ts : List Ty)
    (hlength : ts.length = es.length) (hts : allInert ts = true) :
    inferEach ctx demand expand es (ts.map some)
      = inferEach ctx demand expand es (List.replicate es.length none) := by
  cases es with
  | nil =>
    obtain rfl := List.eq_nil_of_length_eq_zero hlength
    rfl
  | cons e es =>
    cases ts with
    | nil => cases hlength
    | cons h ts =>
      obtain ⟨he, hes⟩ := Bool.and_eq_true_iff.mp hes
      obtain ⟨hh, hts⟩ := Bool.and_eq_true_iff.mp hts
      rw [List.map_cons, List.length_cons, List.replicate_succ, inferEach, inferEach,
        infer_of_isInert e he hh,
        inferEach_of_allInert es hes ts (Nat.succ.inj hlength) hts]
termination_by structural es

end

end

/-!
## Hints that were inferred

The second time, everything that the tree depends on was settled before, and
asking for it again changes nothing (`Repeatable`). What is left to see is that
the hint settles nothing else than was found: a tuple of types that was no type
the first time has a hint that is no type of types, and the elements of a list
have the type that they are now checked against from the start.
-/

/-- A type is expected and found. -/
theorem expect_self (site : Site) (ty : Ty) (span : Span) :
    (expect site ty ty span : Check β Unit) = pure () := if_pos rfl

/-- The type that the elements of a list are checked against is the type of the
elements. -/
theorem fst_of_inferElements {expand : Span → μ → Option Ty → Check β Term} {es : List (Expr μ)}
    {ty : Ty} {out : Option Ty × List Term}
    (h : inferElements ctx demand expand es (some ty) s = .ok out t) : out.1 = some ty := by
  induction es generalizing s out with
  | nil =>
    cases h
    rfl
  | cons e es ih =>
    rw [inferElements] at h
    obtain ⟨term, u, -, h⟩ := exists_of_step_bind h
    obtain ⟨-, v, -, h⟩ := exists_of_step_bind h
    obtain ⟨⟨ty', terms⟩, w, hrest, h⟩ := exists_of_step_bind h
    cases h
    exact (ih hrest :)

/-- One term comes of each expression that has a hint. -/
theorem length_of_inferEach {expand : Span → μ → Option Ty → Check β Term} {es : List (Expr μ)}
    {hints : List (Option Ty)} {terms : List Term}
    (h : inferEach ctx demand expand es hints s = .ok terms t) :
    terms.length = min es.length hints.length := by
  induction es generalizing s hints terms with
  | nil =>
    cases h
    rfl
  | cons e es ih =>
    cases hints with
    | nil =>
      cases h
      rfl
    | cons hint hints =>
      rw [inferEach] at h
      obtain ⟨term, u, -, h⟩ := exists_of_step_bind h
      obtain ⟨rest, v, hrest, h⟩ := exists_of_step_bind h
      cases h
      rw [List.length_cons, ih hrest, List.length_cons, List.length_cons, Nat.succ_min_succ]

section

variable (hreplies : ∀ text b, (ctx.backend.evaluate text b).1 = table text)
  (hrecalls : Recalls ctx demand)
include hreplies hrecalls

mutual

/-- **What was inferred may be expected**: an expression that was checked
without a hint can be checked again with its own type for a hint, and the term
is the same. -/
theorem regains_inferred (e : Expr Invocation) (he : e.isPlain = true) {s t s' : State β} {k : Nat}
    {term : Term} (ht : infer ctx demand (expand ctx demand) e none s = .ok term t)
    (hs' : Returns k s t s') :
    Regains k term t (infer ctx demand (expand ctx demand) e (some term.ty) s') := by
  have hc := corresponds_source hreplies hrecalls
  -- only these two look at the hint, and all others are repeated as they were
  cases e with
  | tuple span elements =>
    rw [infer] at ht
    obtain ⟨terms, u, hterms, ht⟩ := exists_of_step_bind ht
    cases ht
    have hlength : (terms.map (·.ty)).length = elements.length := by
      rw [List.length_map, length_of_inferEach hterms, elementHints_none, List.length_replicate,
        Nat.min_self]
    have hhints : elementHints elements.length (some (tupleTy none terms))
        = (terms.map (·.ty)).map some := if_pos hlength
    rw [infer, hhints]
    exact (regains_each elements he hterms hs').bind fun u' _ hmatches => ⟨u', rfl, hmatches⟩
  | list span elements =>
    rw [infer] at ht
    obtain ⟨⟨ty, terms⟩, u, hterms, ht⟩ := exists_of_step_bind ht
    cases ht
    rw [infer]
    cases elements with
    | nil =>
      cases hterms
      exact ⟨s', rfl, hs'.scopes⟩
    | cons e es =>
      rw [elementTy_none, inferElements] at hterms
      obtain ⟨term, v, hterm, hterms⟩ := exists_of_step_bind hterms
      obtain ⟨⟨ty', rest⟩, w, hrest, hterms⟩ := exists_of_step_bind hterms
      cases hterms
      -- the first element settles the type, which is expected of it the second time
      obtain rfl : ty = some term.ty := fst_of_inferElements hrest
      have hes := (congruence_repeatable ctx).inferElements hc es (some term.ty)
      have hvt := hes.retains.of_eq_ok hrest
      have hagain := regains_inferred e (Bool.and_eq_true_iff.mp he).1 hterm
        ⟨hs'.scopes, hvt.trans hs'.retains⟩
      have helements : Regains k (some term.ty, term :: rest) t
          (inferElements ctx demand (expand ctx demand) (e :: es) (some term.ty) s') := by
        rw [inferElements]
        refine hagain.bind fun v' hv' hmatches => ?_
        rw [expect_self]
        have hsv' := ((congruence_repeatable ctx).infer hc e _).retains.of_eq_ok hv'
        exact (hes.again v _ t hrest k k.zero_le v' ⟨hmatches, hs'.retains.trans hsv'⟩).bind
          fun w' _ hmatches => ⟨w', rfl, hmatches⟩
      exact helements.bind fun w' _ hmatches => ⟨w', rfl, hmatches⟩
  | expand span m => cases he
  | _ => exact ((congruence_repeatable ctx).infer hc _ none).again s term t ht k k.zero_le s' hs'
termination_by structural e

/-- The elements of a tuple are checked again, each with its own type for a
hint. -/
theorem regains_each (es : List (Expr Invocation)) (hes : allPlain es = true) {s t s' : State β}
    {k : Nat} {terms : List Term}
    (ht : inferEach ctx demand (expand ctx demand) es (List.replicate es.length none) s
      = .ok terms t) (hs' : Returns k s t s') :
    Regains k terms t
      (inferEach ctx demand (expand ctx demand) es ((terms.map (·.ty)).map some) s') := by
  have hc := corresponds_source hreplies hrecalls
  cases es with
  | nil =>
    cases ht
    exact ⟨s', rfl, hs'.scopes⟩
  | cons e es =>
    obtain ⟨he, hes⟩ := Bool.and_eq_true_iff.mp hes
    rw [List.length_cons, List.replicate_succ, inferEach] at ht
    obtain ⟨term, u, hterm, ht⟩ := exists_of_step_bind ht
    obtain ⟨rest, v, hrest, ht⟩ := exists_of_step_bind ht
    cases ht
    have hut := ((congruence_repeatable ctx).inferEach hc es _).retains.of_eq_ok hrest
    have hagain := regains_inferred e he hterm ⟨hs'.scopes, hut.trans hs'.retains⟩
    rw [List.map_cons, List.map_cons, inferEach]
    refine hagain.bind fun u' hu' hmatches => ?_
    have hsu' := ((congruence_repeatable ctx).infer hc e _).retains.of_eq_ok hu'
    exact (regains_each es hes hrest ⟨hmatches, hs'.retains.trans hsu'⟩).bind
      fun v' _ hmatches => ⟨v', rfl, hmatches⟩
termination_by structural es

end

end

/-! ## Hints only settle what is open -/

/-- **A hint only settles what is open.** An inert one makes no difference, from
whatever state and however the checking ends. And if an expression was checked
without a hint, then in the state where that has ended it can be checked with
its own type for a hint, by a backend that replies by a table to what it has to
evaluate, and the term is the same.

The first part is an induction on the expression in which both sides are equal
as steps. The second cannot be, as the state is another by then: it is the one
in which everything was settled that the expression needs, so each part of it is
checked again with what is known. -/
theorem hints_only_settle (ctx : Context β) (depth : Nat) (e : Expr Invocation)
    (he : e.isPlain = true) :
    (∀ h : Ty, h.isInert = true → ∀ s : State β,
      inferWithin ctx depth e (some h) s = inferWithin ctx depth e none s) ∧
    ∀ table : String → Except Backend.Fault Data,
      (∀ text b, (ctx.backend.evaluate text b).1 = table text) →
      ∀ (s t : State β) (term : Term), inferWithin ctx depth e none s = .ok term t →
        ∃ u, inferWithin ctx depth e (some term.ty) t = .ok term u := by
  refine ⟨fun h hh s => congrFun (infer_of_isInert e he hh) s,
    fun table hreplies s t term ht => ?_⟩
  have hplace : t.scopes.bare = s.scopes.bare :=
    ((infer_proceeds (provides_demandWith ctx depth) rfl e none).of_eq_ok ht).2.1
  obtain ⟨u, hu, -⟩ := regains_inferred hreplies (recalls_demandWith ctx depth) e he ht
    ⟨.of_bare hplace, .refl t⟩
  exact ⟨u, hu⟩

/-- A pair, two lists of which one is empty, and a closure. -/
def assorted : Expr Invocation :=
  .tuple .nowhere
    [.tuple .nowhere [.var (.unplaced "a"), .bool .nowhere true],
      .list .nowhere [.var (.unplaced "a"), .int .nowhere 1],
      .list .nowhere [],
      .closure .nowhere [⟨.unplaced "x", .var (.unplaced "Int")⟩] (.var (.unplaced "Int"))
        (.ofExpr (.binary .nowhere .add (.var (.unplaced "x")) (.var (.unplaced "a"))))]

/-- What a backend replies that knows one type. -/
def oneType (text : String) : Except Backend.Fault Data :=
  if text = "Int" then .ok (Value.type .int).encode
  else .error (.unsupported Request.evaluate.text)

/-- An analysis that folds nothing, so that all ascriptions are evaluated. -/
def unfolding (ds : Declarations) : Context (Buffer Unit) where
  declarations := ds
  options := { fold := false }
  backend := Buffer.backend (some fun text state => (oneType text, state))

/-- A place with a local. -/
def besideLocal (ds : Declarations) : State (Buffer Unit) :=
  { (unfolding ds).start { evaluator := () } with
    scopes := { topLevel := ds.names, dedup := true, inner := [{ entries :=
      [⟨.unplaced "a", .lexical ⟨.unplaced "a", .parameter, .int⟩⟩] }] } }

/-- All of this at once: a hint that says something of every part of the tuple,
and settles none, and the type that was inferred. -/
theorem assorted_settled : ∃ (ds : Declarations) (term : Term) (t : State (Buffer Unit)),
    Declarations.collect [] = .ok ds ∧ assorted.isPlain = true ∧
      (Ty.tuple [.tuple [.string, .float], .int, .struct "S", .bool]).isInert = true ∧
      (∀ text b, ((unfolding ds).backend.evaluate text b).1 = oneType text) ∧
      inferSource (unfolding ds) assorted none (besideLocal ds) = .ok term t ∧
      term.ty = .tuple [.tuple [.int, .bool], .list .int, .list .nil, .fn (.tuple [.int]) .int] ∧
      (evaluations t.transcript).map (·.2) = ["Int", "Int"] ∧
      inferSource (unfolding ds) assorted
        (some (.tuple [.tuple [.string, .float], .int, .struct "S", .bool])) (besideLocal ds)
          = .ok term t ∧
      ∃ u, inferSource (unfolding ds) assorted (some term.ty) t = .ok term u := by
  have hrun : ((Declarations.collect []).toOption.map fun ds =>
      match inferSource (unfolding ds) assorted none (besideLocal ds) with
      | .ok term t => some (term.ty, (evaluations t.transcript).map (·.2))
      | .error _ _ => none)
        = some (some (.tuple [.tuple [.int, .bool], .list .int, .list .nil,
            .fn (.tuple [.int]) .int], ["Int", "Int"])) := by
    decide +kernel
  have hplain : assorted.isPlain = true := by decide +kernel
  have hinert : (Ty.tuple [.tuple [.string, .float], .int, .struct "S", .bool]).isInert = true := by
    decide +kernel
  cases hds : Declarations.collect [] with
  | error e =>
    rw [hds] at hrun
    cases hrun
  | ok ds =>
    rw [hds] at hrun
    replace hrun := Option.some.inj hrun
    dsimp only at hrun
    cases hterm : inferSource (unfolding ds) assorted none (besideLocal ds) with
    | error h t =>
      rw [hterm] at hrun
      cases hrun
    | ok term t =>
      rw [hterm] at hrun
      obtain ⟨hty, hevaluations⟩ := Prod.mk.inj (Option.some.inj hrun)
      have hsettle := hints_only_settle (unfolding ds) ds.count assorted hplain
      exact ⟨ds, term, t, rfl, hplain, hinert, fun _ _ => rfl, hterm, hty, hevaluations,
        (hsettle.1 _ hinert _).trans hterm, hsettle.2 oneType (fun _ _ => rfl) _ t term hterm⟩

end Analysis

end Stagewise
