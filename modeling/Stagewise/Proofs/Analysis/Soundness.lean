import Stagewise.Proofs.Analysis.Inference

/-!
# Checking is sound

A name leads to a declaration that is checked on demand, and that one to others.
However deep this goes, it proceeds: with room for some number of declarations,
`analyzeWithin` does, by induction on that number. A declaration under analysis
is marked, and what is marked cannot be asked for, so nobody but the declaration
itself publishes its type.

So checking is sound: whenever an expression or a block was checked, from
whatever state, with any hint, in any scope and by any backend, what came of it
obeys the typing rules (`checking_sound`).
-/

namespace Stagewise.Analysis

open Source (Expr Invocation)

variable {β : Type} {ctx : Context β} {s t : State β} {c : Scopes} {demand : String → Check β Ty}

/-! ## Expansions -/

/-- To have text expanded leads to a state where the same is known. -/
theorem expansion_proceeds {binding : Binding} {text : String} :
    Proceeds ctx s (fun t _ => t.scopes = s.scopes) (expansion ctx binding text s) := by
  unfold expansion
  refine .get_bind ?_
  cases s.cache.get? text with
  | some d => exact ⟨.move rfl rfl rfl rfl rfl rfl, rfl⟩
  | none =>
    refine .bind (.send fun _ => rfl) ?_
    rintro d t - ⟨rfl, -⟩
    exact ⟨.move rfl rfl rfl rfl rfl rfl, rfl⟩

/-- A tree with nothing to expand is checked like any other. -/
theorem inferExpanded_proceeds (h : Demands ctx demand) (hs : At c s) (e : Expr Empty)
    (hint : Option Ty) : Proceeds ctx s (Yields c) (inferExpanded ctx demand e hint s) :=
  infer_proceeds ⟨h, fun _ _ _ m => nomatch m⟩ hs e hint

/-- **Text can be expanded** where types can be asked for. -/
theorem provides_expand (h : Demands ctx demand) : Provides ctx demand (expand ctx demand) := by
  refine ⟨h, fun s c span m hint hs => ?_⟩
  unfold expand
  refine .bind (typeOf_proceeds h hs m.expander) ?_
  rintro ⟨binding, ty⟩ t - ⟨ht, -, -⟩
  refine .bind .expect ?_
  rintro - t - ⟨rfl, rfl⟩
  -- an expander that is not defined yet cannot run
  suffices hrun : Proceeds ctx t (Yields c)
      ((expansion ctx binding (expansionText m (hint.getD .nil)) >>= _) t) by
    cases binding with
    | lexical l => exact hrun
    | global x =>
      refine .get_bind ?_
      by_cases hdefined : x ∈ t.defined
      · simp only [hdefined, not_true_eq_false, ↓reduceIte]
        exact hrun
      · simp only [hdefined, not_false_eq_true, ↓reduceIte]
        exact .stop fun _ _ _ => .internal _
  refine .bind expansion_proceeds ?_
  intro d u _ hscopes
  have hu : At c u := (congrArg Scopes.bare hscopes).trans ht
  cases Expansion.decode [hint.getD .nil] span d with
  | error cause => exact .report _
  | ok result =>
    obtain ⟨message, e⟩ := result
    refine .reportIf fun _ => ?_
    exact inferExpanded_proceeds h hu e hint

/-!
## One declaration

A declaration that is examined changes what is known, and this is the one place
where something could go wrong: it could publish a type over one that was
published in the meantime. It is marked for that reason. The mark is made before
anything else is asked for, and as long as it is there nobody else examines the
declaration (`Fresh.unpublished`).
-/

theorem declare_proceeds {subject : Subject} {text : String} :
    Proceeds ctx s (fun t _ => t = s.told ctx .declare subject text)
      (declare ctx subject text s) :=
  (Proceeds.send fun _ => rfl).imp fun _ _ _ ht => ht.1

/-- A definition publishes nothing by itself. -/
theorem define_proceeds {name : String} {subject : Subject} {text : String} :
    Proceeds ctx s (fun t _ => t.types = s.types ∧ t.values = s.values)
      (define ctx name subject text s) := by
  unfold define
  refine .get_bind ?_
  split
  · exact .stop fun _ _ _ => .internal _
  · have hdefined : Extends ctx s { s with defined := s.defined ++ [name] } :=
      .move rfl rfl rfl rfl rfl rfl
    refine .after hdefined ((Proceeds.send fun _ => rfl).imp ?_)
    rintro t - - ⟨rfl, -⟩
    exact ⟨rfl, rfl⟩

/-- What a body folds to depends on what is known where it is folded. -/
theorem foldedBlock_proceeds (b : Term.Block) :
    Proceeds ctx s (fun t v => t.scopes = s.scopes ∧ ∀ w ∈ v, Fold.block t.values b = some w)
      (foldedBlock ctx b s) :=
  ⟨.note, rfl, fun _ hw => (Option.ite_none_right_eq_some.mp hw).2⟩

/-- A declaration is marked, as one whose type is being computed. -/
theorem mark_proceeds (name : String) :
    Proceeds ctx s (fun t _ => t = { s with inProgress := s.inProgress.insert name })
      (mark name s) := by
  refine ⟨(Extends.refl s).of_same rfl rfl rfl rfl (fun _ hm => .inr hm) fun x hx => ?_, rfl⟩
  exact List.mem_insert_of_mem hx

/-- **A declaration that can be examined**: its type is neither known nor being
computed. -/
structure Fresh (ctx : Context β) (s : State β) (d : Declaration) : Prop where
  entry : d ∈ ctx.declarations.entries
  free : d.name ∉ s.inProgress
  new : s.types.lookup d.name = none

/-- The type of a declaration that was marked is not published by what is
checked in between. -/
theorem Fresh.unpublished {d : Declaration} (h : Fresh ctx s d)
    (hst : Extends ctx { s with inProgress := s.inProgress.insert d.name } t) :
    t.types.lookup d.name = none :=
  hst.unpublished d.name List.mem_insert_self h.new

/-- A built-in publishes the type and the value that it is known to have. -/
theorem examineBuiltin_proceeds {b : Builtin} (h : Fresh ctx s (.builtin b)) :
    Proceeds ctx s (fun _ _ => True) (examineBuiltin ctx b s) := by
  unfold examineBuiltin
  refine .bindFrom (.refl s) (.send fun _ => rfl) ?_
  rintro - t hst ⟨rfl, -⟩
  refine .bindFrom hst define_proceeds ?_
  rintro - u htu ⟨htypes, -⟩
  have hnew : u.types.lookup b.name = none := htypes ▸ h.new
  have halias : ∀ w ∈ b.alias?.map Value.type, w.HasType b.ty := by
    intro w hw
    obtain ⟨ty, hty, rfl⟩ := Option.map_eq_some_iff.mp hw
    have hb : b.ty = .type := by cases b <;> first | rfl | cases hty
    exact hb ▸ .type ty
  have hlearn := (hst.trans htu).learn h.entry h.free h.new hnew (fun _ _ => halias)
    (fun c hc => by cases hc; rfl)
  cases hb : b.alias? with
  | none =>
    rw [hb] at hlearn
    exact ⟨hlearn, trivial⟩
  | some ty =>
    rw [hb] at hlearn
    exact ⟨hlearn, trivial⟩

/-- **A function proceeds.** It has been marked since it was entered, so its
type was not published by anybody else when it publishes it itself, after the
ascriptions are checked. Everything before that is measured from where it began,
and what comes after extends a state in which its type is known. -/
theorem examineFunction_proceeds (hdemand : Demands ctx demand) {f : Source.Function}
    (h : Fresh ctx s (.source (.function f))) :
    Proceeds ctx s (fun _ _ => True) (examineFunction ctx demand f s) := by
  have hprovides := provides_expand hdemand
  unfold examineFunction
  refine .bindFrom (.refl s) (mark_proceeds _) ?_
  rintro - _ hmark rfl
  refine .bindFrom hmark (inferParams_proceeds hprovides rfl f.params) ?_
  intro params t hst ht
  refine .bindFrom (hmark.trans hst)
    (ascribed_proceeds ht fun u hu => infer_proceeds hprovides hu f.result _) ?_
  intro result u htu hu
  -- the type is published, and it is not being computed any more
  have hnew : u.types.lookup f.name.text = none := h.unpublished (hst.trans htu)
  have hlearn : Extends ctx s { u with
      types := (f.name.text, .functionOf (params.map (·.2)) result) :: u.types } :=
    ((hmark.trans hst).trans htu).learn (v := none) h.entry h.free h.new hnew
      (fun _ _ w hw => by cases hw) (fun c hc => by cases hc)
  have hpublish : Extends ctx s { u with
      types := (f.name.text, .functionOf (params.map (·.2)) result) :: u.types
      inProgress := u.inProgress.erase f.name.text } := hlearn.unmark h.free
  refine .after hpublish ?_
  refine .bind (.send fun _ => rfl) ?_
  rintro - v - ⟨rfl, -⟩
  refine .bind (.inScope (R := fun _ _ => True) hu (fun _ _ _ h => h) fun w hw => ?_) ?_
  · refine .bind (.introduceParams params hw (Scopes.inside_push _)) ?_
    rintro - x - ⟨d, hx, hinside, -⟩
    refine (checkBlock_proceeds hprovides hx f.body _).imp ?_
    rintro y body - ⟨hy, -⟩
    exact ⟨⟨d, hy, hinside⟩, trivial⟩
  rintro body w - -
  refine .bind .expect ?_
  rintro - _ - ⟨rfl, -⟩
  refine .reportIf fun _ => ?_
  exact define_proceeds.imp fun _ _ _ _ => trivial

/-- **A constant proceeds.** If its body folds then the value has the type of
the body, as this obeys the rules and is folded with values that have their
types. -/
theorem examineConstant_proceeds (hdemand : Demands ctx demand) {const : Source.Constant}
    (h : Fresh ctx s (.source (.constant const))) :
    Proceeds ctx s (fun _ _ => True) (examineConstant ctx demand const s) := by
  have hprovides := provides_expand hdemand
  unfold examineConstant
  refine .bindFrom (.refl s) (mark_proceeds _) ?_
  rintro - _ hmark rfl
  refine .bindFrom hmark
    (ascribed_proceeds rfl fun u hu => infer_proceeds hprovides hu const.ascription _) ?_
  intro ty t hst ht
  refine .bindFrom (hmark.trans hst) (.send fun _ => rfl) ?_
  rintro - _ htell ⟨rfl, -⟩
  have htold := hst.trans htell
  refine .bindFrom (hmark.trans htold)
    (.inScope (R := fun t (b : Term.Block) => ∃ E, b.Typed (Published t) E) ht (fun _ _ _ h => h)
      fun w hw => ?_) ?_
  · refine (checkBlock_proceeds hprovides hw const.body _).imp ?_
    rintro y body - ⟨hy, hbody⟩
    exact ⟨⟨_, hy, Scopes.inside_push _⟩, _, hbody⟩
  rintro body u htu ⟨-, E, hbody⟩
  refine .bindFrom (hmark.trans (htold.trans htu)) .expect ?_
  rintro - u - ⟨rfl, rfl⟩
  refine .bindFrom (hmark.trans (htold.trans htu)) (foldedBlock_proceeds body) ?_
  rintro value w huw ⟨-, hvalue⟩
  have hw := (htold.trans htu).trans huw
  -- the type is published when the constant is defined, with the value if there is one
  have hlearn (v : State β) (hwv : Extends ctx w v) (hvalues : v.values = w.values) :
      Extends ctx s { v with
        types := (const.name.text, body.ty) :: v.types
        values := (value.map (const.name.text, ·)).toList ++ v.values } := by
    refine (hmark.trans (hw.trans hwv)).learn h.entry h.free h.new
      (h.unpublished (hw.trans hwv)) (fun b hinformed x hx => ?_) (fun c hc => by cases hc)
    have hbody := (huw.trans hwv).typedBlock hbody
    exact Fold.hasType_block hinformed.agrees body hbody.wellTyped x (hvalues ▸ hvalue x hx)
  -- the request depends on whether there is one, and what is learnt does not
  cases value
  all_goals
    refine .bindFrom (hmark.trans hw) define_proceeds ?_
    rintro - v hwv ⟨-, hvalues⟩
    exact ⟨hlearn v hwv hvalues, trivial⟩

/-- Every declaration proceeds that is neither known nor being computed. -/
theorem examine_proceeds (hdemand : Demands ctx demand) {d : Declaration} (h : Fresh ctx s d) :
    Proceeds ctx s (fun _ _ => True) (examine ctx demand d s) := by
  rcases d with b | f | const
  · exact examineBuiltin_proceeds h
  · exact examineFunction_proceeds hdemand h
  · exact examineConstant_proceeds hdemand h

/-! ## On demand -/

/-- **Settling a declaration** proceeds if examining it does, and the place is
what it was. -/
theorem settle_proceeds {d : Declaration} {step : Check β Unit} (h : Fresh ctx s d)
    (hstep : ∀ t, Fresh ctx t d → Proceeds ctx t (fun _ _ => True) (step t)) :
    Proceeds ctx s (fun t _ => t.scopes = s.scopes) (settle d.name step s) := by
  have henter : Extends ctx s { s with
      active := d.name :: s.active, scopes := s.scopes.isolated, inAscription := false } :=
    .move rfl rfl rfl rfl rfl rfl
  have hexamined := (hstep
    { s with active := d.name :: s.active, scopes := s.scopes.isolated, inAscription := false }
    ⟨h.entry, h.free, h.new⟩).after henter
  unfold settle atTopLevel
  split
  · exact ⟨.refl s, rfl⟩
  generalize step _ = r at hexamined ⊢
  rcases r with ⟨a, t⟩ | ⟨- | f, t⟩
  · exact ⟨hexamined.1.unmark h.free, rfl⟩
  · exact ⟨hexamined.unmark h.free, rfl⟩
  · exact ⟨hexamined.1.unmark h.free, hexamined.2⟩

/-- What is said of a declaration that was gone through: its type, or that it
has none. -/
theorem answer_proceeds {answer : State β → Check β Ty} {x : String}
    (h : ∀ t, answer t = (t.types.lookup x).elim
      (if x ∈ t.failed then throw .diagnostics else stop (.internal (.missingType x))) pure) :
    Proceeds ctx s (fun t ty => t.scopes = s.scopes ∧ Published t x ty) ((get >>= answer) s) := by
  refine .get_bind ?_
  rw [h]
  cases hty : s.types.lookup x with
  | some ty => exact .pure ⟨rfl, hty⟩
  | none =>
    rw [Option.elim_none]
    split
    · exact Extends.refl s
    · exact .stop fun _ _ _ => .internal _

/-- **The type of a declaration can be asked for**, if settling it proceeds. -/
theorem demandWith_demands {analyze : Declaration → Check β Unit}
    (h : ∀ s d, Fresh ctx s d → Proceeds ctx s (fun t _ => t.scopes = s.scopes) (analyze d s)) :
    Demands ctx (demandWith ctx analyze) := by
  intro s x
  unfold demandWith
  refine .get_bind ?_
  cases hty : s.types.lookup x with
  | some ty => exact .pure ⟨rfl, hty⟩
  | none =>
    by_cases hfailed : x ∈ s.failed
    · simp only [hfailed, ↓reduceIte]
      exact Extends.refl s
    by_cases hprogress : x ∈ s.inProgress
    · simp only [hfailed, hprogress, ↓reduceIte]
      exact .stop fun _ _ _ => .internal _
    simp only [hfailed, hprogress, ↓reduceIte]
    cases hfind : ctx.declarations.find? x with
    | none => exact answer_proceeds fun t => by cases t.types.lookup x <;> rfl
    | some d =>
      obtain ⟨hd, rfl⟩ := Declarations.find?_eq_some_iff.mp hfind
      refine .bind (h s d ⟨hd, hprogress, hty⟩) fun _ t _ ht => ?_
      exact ht ▸ answer_proceeds fun t => by cases t.types.lookup d.name <;> rfl

/-- **Declarations can be settled**, with room for any number of them. -/
theorem analyzeWithin_proceeds (depth : Nat) {d : Declaration} (h : Fresh ctx s d) :
    Proceeds ctx s (fun t _ => t.scopes = s.scopes) (analyzeWithin ctx depth d s) := by
  induction depth generalizing s d with
  | zero => exact .stop fun _ _ _ => .internal _
  | succ depth ih =>
    exact settle_proceeds h fun t ht => examine_proceeds (demandWith_demands fun s d => ih) ht

/-- What the checking of trees leaves to others proceeds, with room for any
number of declarations. -/
theorem provides_demandWith (ctx : Context β) (depth : Nat) :
    Provides ctx (demandWith ctx (analyzeWithin ctx depth))
      (expand ctx (demandWith ctx (analyzeWithin ctx depth))) :=
  provides_expand (demandWith_demands fun _ _ => analyzeWithin_proceeds depth)

/-! ## Soundness -/

/-- Check an expression, with room for `depth` declarations under analysis. -/
def inferWithin (ctx : Context β) (depth : Nat) (e : Expr Invocation) (hint : Option Ty) :
    Check β Term :=
  infer ctx (demandWith ctx (analyzeWithin ctx depth))
    (expand ctx (demandWith ctx (analyzeWithin ctx depth))) e hint

/-- Check a block, with room for `depth` declarations under analysis. -/
def checkBlockWithin (ctx : Context β) (depth : Nat) (b : Source.Block Invocation)
    (hint : Option Ty) : Check β Term.Block :=
  checkBlock ctx (demandWith ctx (analyzeWithin ctx depth))
    (expand ctx (demandWith ctx (analyzeWithin ctx depth))) b hint

/-- An expression is checked to a term that obeys the rules where the checking
began. -/
theorem inferWithin_proceeds (depth : Nat) (e : Expr Invocation) (hint : Option Ty) :
    Proceeds ctx s (fun t term => term.Typed (Published t) s.scopes.resolve)
      (inferWithin ctx depth e hint s) :=
  (infer_proceeds (provides_demandWith ctx depth) rfl e hint).imp fun _ _ _ h =>
    Scopes.resolve_bare s.scopes ▸ h.2

theorem checkBlockWithin_proceeds (depth : Nat) (b : Source.Block Invocation) (hint : Option Ty) :
    Proceeds ctx s (fun t block => block.Typed (Published t) s.scopes.resolve)
      (checkBlockWithin ctx depth b hint s) :=
  (checkBlock_proceeds (provides_demandWith ctx depth) rfl b hint).imp fun _ _ _ h =>
    Scopes.resolve_bare s.scopes ▸ h.2

/-- **Checking is sound.** Whenever an expression of the source, a tree that was
expanded or a block was checked, what came of it obeys the typing rules in the
scopes where the checking began, by the types that are published when it ends.

The proof has two inductions in it. One is on the tree, and takes for granted
what is said of names, whose declarations may have to be settled first
(`infer_proceeds`). The other is on the number of declarations that there is
room for, and provides just that (`analyzeWithin_proceeds`). Nothing is needed
of the state, because to proceed is to extend whatever state there is. -/
theorem checking_sound (ctx : Context β) (depth : Nat) (s t : State β) (hint : Option Ty) :
    (∀ (e : Expr Invocation) (term : Term), inferWithin ctx depth e hint s = .ok term t →
      term.Typed (Published t) s.scopes.resolve) ∧
    (∀ (e : Expr Empty) (term : Term),
      inferExpanded ctx (demandWith ctx (analyzeWithin ctx depth)) e hint s = .ok term t →
      term.Typed (Published t) s.scopes.resolve) ∧
    ∀ (b : Source.Block Invocation) (block : Term.Block),
      checkBlockWithin ctx depth b hint s = .ok block t →
        block.Typed (Published t) s.scopes.resolve := by
  refine ⟨fun e term hterm => ?_, fun e term hterm => ?_, fun b block hblock => ?_⟩
  · exact ((inferWithin_proceeds depth e hint).of_eq_ok hterm).2
  · have hexpanded := inferExpanded_proceeds (provides_demandWith ctx depth).demands
      (rfl : At s.scopes.bare s) e hint
    exact Scopes.resolve_bare s.scopes ▸ (hexpanded.of_eq_ok hterm).2.2
  · exact ((checkBlockWithin_proceeds depth b hint).of_eq_ok hblock).2

/-- A closure that is called: it binds a variable, adds to it, and looks at what
came of that. -/
def stepUp : Expr Invocation :=
  .call .nowhere
    (.closure .nowhere [⟨.unplaced "x", .var (.unplaced "Int")⟩] (.var (.unplaced "Int"))
      ⟨.nowhere,
        [.bind .nowhere (.unplaced "y") (.var (.unplaced "Int")) (.ofExpr (.var (.unplaced "x"))),
          .assign .nowhere (.unplaced "y") .addAssign (.ofExpr (.int .nowhere 1)),
          .branch .nowhere
            (.binary .nowhere .less (.var (.unplaced "y")) (.int .nowhere 10))
            (.ofExpr (.var (.unplaced "y")))
            (.ofExpr (.unary .nowhere .negate (.var (.unplaced "y"))))]⟩)
    [.int .nowhere 3]

/-- The term that comes of it, the type that it has, and that it obeys the
rules. -/
theorem stepUp_typed : ∃ (ds : Declarations) (term : Term) (t : State (Buffer Unit)),
    Declarations.collect [] = .ok ds ∧
      inferSource ⟨ds, {}, Buffer.backend none⟩ stepUp none
        ((Context.mk ds {} (Buffer.backend none)).start { evaluator := () }) = .ok term t ∧
      term.ty = .int ∧ t.types.lookup "Int" = some .type ∧
      term.Typed (Published t) (fun x => if x ∈ ds.names then some (.global x) else none) := by
  have hrun : ((Declarations.collect []).toOption.map fun ds =>
      match inferSource ⟨ds, {}, Buffer.backend none⟩ stepUp none
          ((Context.mk ds {} (Buffer.backend none)).start { evaluator := () }) with
      | .ok term t => some (term.ty, t.types.lookup "Int")
      | .error _ _ => none) = some (some (.int, some .type)) := by
    decide +kernel
  cases hds : Declarations.collect [] with
  | error e =>
    rw [hds] at hrun
    cases hrun
  | ok ds =>
    rw [hds] at hrun
    replace hrun := Option.some.inj hrun
    dsimp only at hrun
    cases hterm : inferSource ⟨ds, {}, Buffer.backend none⟩ stepUp none
        ((Context.mk ds {} (Buffer.backend none)).start { evaluator := () }) with
    | error h t =>
      rw [hterm] at hrun
      cases hrun
    | ok term t =>
      rw [hterm] at hrun
      obtain ⟨hty, hint⟩ := Prod.mk.inj (Option.some.inj hrun)
      exact ⟨ds, term, t, rfl, hterm, hty, hint, (checking_sound _ _ _ t none).1 stepUp term hterm⟩

end Stagewise.Analysis
