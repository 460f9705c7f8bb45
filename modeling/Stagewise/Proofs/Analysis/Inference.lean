import Stagewise.Proofs.Analysis.Proceeds

/-!
# Checking trees by the rules

What comes of checking a tree obeys the typing rules, by the types that are
published in the end and in the environment where the checking began. This holds
for every expression, every block and every hint, from any state: nothing is
assumed of what was checked before.

The induction is on the tree. A name may lead to another declaration, whose type
is then asked for, and an invocation leads to another tree. That both proceed as
they should is assumed here (`Demands`, `Provides`).
-/

namespace Stagewise.Analysis

open Source (Expr Stmt Param Invocation)

variable {β α μ : Type} {ctx : Context β} {s t : State β} {c : Scopes}

/-- **A term that was found in a place**: it obeys the rules there, and the
place was not left. -/
def Yields (c : Scopes) (t : State β) (e : Term) : Prop :=
  At c t ∧ e.Typed (Published t) c.resolve

/-- **Asking for the type of a declaration** proceeds, and gives the type that
is published. -/
def Demands (ctx : Context β) (demand : String → Check β Ty) : Prop :=
  ∀ s x, Proceeds ctx s (fun t ty => t.scopes = s.scopes ∧ Published t x ty) (demand x s)

/-- **What the checking of trees leaves to others** proceeds as it should. -/
structure Provides (ctx : Context β) (demand : String → Check β Ty)
    (expand : Span → μ → Option Ty → Check β Term) : Prop where
  demands : Demands ctx demand
  expands : ∀ s c span m hint, At c s → Proceeds ctx s (Yields c) (expand span m hint s)

/-- Terms still obey the rules after more was analyzed. -/
theorem Extends.typed (h : Extends ctx s t) {E : Env} {e : Term} (he : e.Typed (Published s) E) :
    e.Typed (Published t) E := he.mono h.types

/-- So do blocks. -/
theorem Extends.typedBlock (h : Extends ctx s t) {E : Env} {b : Term.Block}
    (hb : b.Typed (Published s) E) : b.Typed (Published t) E := hb.mono h.types

/-! ## Names -/

/-- The type of what a name refers to. -/
def Denotes (t : State β) : Binding × Ty → Prop
  | (.lexical l, ty) => ty = l.ty
  | (.global x, ty) => Published t x ty

/-- **A name is found to be what the environment says**, and has the type that
goes with it. That of a declaration is published by then, since it was asked
for. -/
theorem typeOf_proceeds {demand : String → Check β Ty} (h : Demands ctx demand) (hs : At c s)
    (name : Name) :
    Proceeds ctx s (fun t out => At c t ∧ c.resolve name.text = some out.1 ∧ Denotes t out)
      (typeOf demand name s) := by
  obtain rfl := hs
  unfold typeOf
  refine .get_bind ?_
  cases hget : s.scopes.get name.text with
  | none => exact .report _
  | some found =>
    obtain ⟨binding, scopes⟩ := found
    obtain ⟨hresolve, hbare⟩ := Scopes.of_get_eq_some hget
    rw [← Scopes.resolve_bare] at hresolve
    have hnote : Extends ctx s { s with
        scopes
        resolutions := s.resolutions ++ [⟨s.active.head?, name.text, binding⟩]
        moments := s.now :: s.moments } := .note
    refine .after hnote ?_
    cases binding with
    | lexical l => exact .pure ⟨hbare, hresolve, rfl⟩
    | global x =>
      refine .bind (h _ x) ?_
      rintro ty t - ⟨hscopes, hty⟩
      exact .pure ⟨(congrArg Scopes.bare hscopes).trans hbare, hresolve, hty⟩

/-! ## Ascriptions -/

/-- What a term is evaluated to is what the backend has replied with, as data
that stand for a value. -/
theorem evaluate_proceeds (e : Term) :
    Proceeds ctx s
      (fun t v => t = s.told ctx .evaluate (.term e) e.lower.text ∧ ∃ reply,
        (ctx.backend.evaluate e.lower.text s.backend).1 = .ok reply ∧
          Value.decode [] reply = .ok v)
      (evaluate ctx e s) := by
  unfold evaluate
  refine .get_bind ?_
  cases e.globals.find? (· ∉ s.defined) with
  | some x => exact .stop fun _ _ _ => .internal _
  | none =>
    refine .bindFrom (.refl s) (.send fun _ => rfl) ?_
    rintro reply t hst ⟨rfl, hreply⟩
    cases hdecode : Value.decode [] reply with
    | ok v => exact ⟨hst, rfl, reply, hreply, hdecode⟩
    | error cause =>
      exact ⟨hst, fun b _ hs => .undecoded rfl rfl (hs.backend ▸ hreply) hdecode⟩

/-- What a term folds to depends on the values that are known, and there may be
nothing. -/
theorem folded_proceeds (e : Term) :
    Proceeds ctx s (fun t v => t.scopes = s.scopes ∧ ∀ w ∈ v, Fold.term t.values e = some w)
      (folded ctx e s) :=
  ⟨.note, rfl, fun _ hw => (Option.ite_none_right_eq_some.mp hw).2⟩

/-- **An ascription stands for a type**, or the backend says otherwise. -/
theorem ascribed_proceeds (hs : At c s) {step : Check β Term} {span : Span}
    (hstep : ∀ t, At c t → Proceeds ctx t (Yields c) (step t)) :
    Proceeds ctx s (fun t _ => At c t) (ascribed ctx span step s) := by
  unfold ascribed
  refine .bind (.inAscription (fun _ _ _ h => h) (hstep _ hs)) ?_
  rintro e t - ⟨ht, he⟩
  refine .bind .expect ?_
  rintro - _ - ⟨rfl, hty⟩
  refine .bind (folded_proceeds e) ?_
  rintro v u htu ⟨hscopes, hv⟩
  have hu : At c u := (congrArg Scopes.bare hscopes).trans ht
  cases v with
  | some v =>
    -- what is folded has the type of the term, so it is a type
    have htype (b : β) (hinformed : Informed ctx b u) : ∃ ty, v = .type ty := by
      have htyped := Fold.hasType_term hinformed.agrees e (htu.typed he).wellTyped v (hv v rfl)
      exact (hty ▸ htyped).eq_type
    cases v with
    | type ty => exact .pure hu
    | _ =>
      refine .stop fun b _ hinformed => ?_
      obtain ⟨ty, h⟩ := htype b hinformed
      cases h
  | none =>
    refine .bindFrom (.refl u) (evaluate_proceeds e) ?_
    rintro v w huw ⟨rfl, reply, hreply, hdecode⟩
    cases v with
    | type ty => exact ⟨huw, hu⟩
    | _ =>
      refine ⟨huw, fun b _ hs => ?_⟩
      exact .noType rfl rfl (hs.backend ▸ hreply) hdecode (fun ty h => by cases h)

/-!
## Trees

The two environments in these statements are not the same. A tree is checked in
a place, where names have a meaning, and what comes of it may use names that are
bound further in. So a term obeys the rules in the environment of the place
(`At`), and for a block it is the environment that its statements have led to
(`Scopes.Inside`). Types are taken from what is published in the end. What was
known on the way is known then, and terms that obey the rules still do
(`Extends.typed`).
-/

section

variable {demand : String → Check β Ty} {expand : Span → μ → Option Ty → Check β Term}

mutual

/-- **Checking an expression** gives a term that obeys the typing rules. -/
theorem infer_proceeds {s : State β} {c : Scopes} (h : Provides ctx demand expand) (hs : At c s)
    (e : Expr μ) (hint : Option Ty) :
    Proceeds ctx s (Yields c) (infer ctx demand expand e hint s) := by
  cases e with
  | int span n => unfold infer; exact .pure ⟨hs, .int⟩
  | float span x => unfold infer; exact .pure ⟨hs, .float⟩
  | bool span b => unfold infer; exact .pure ⟨hs, .bool⟩
  | string span x => unfold infer; exact .pure ⟨hs, .string⟩
  | typeLiteral span ty => unfold infer; exact .pure ⟨hs, .value (.type ty)⟩
  | var name =>
    unfold infer
    refine .bind (typeOf_proceeds h.demands hs name) ?_
    rintro ⟨x | l, ty⟩ t - ⟨ht, hresolve, hty⟩
    · exact .pure ⟨ht, .global hresolve hty⟩
    · obtain rfl : ty = l.ty := hty
      exact .pure ⟨ht, .lexical hresolve⟩
  | call span callee arguments =>
    unfold infer
    refine .bind (infer_proceeds h hs callee none) ?_
    rintro callee t - ⟨ht, hcallee⟩
    cases hty : callee.ty with
    | fn argument result =>
      -- arguments and parameters are matched up in pairs, which says enough as they are as many
      refine .reportIf fun hlength => ?_
      refine .bind (inferArguments_proceeds h ht arguments argument.parameters) ?_
      rintro arguments u htu ⟨hu, harguments, htypes⟩
      have htypes := htypes (not_not.mp hlength).symm
      exact .pure ⟨hu, .of_parameters (htu.typed hcallee) harguments hty htypes⟩
    | _ => exact .report _
  | tuple span elements =>
    unfold infer
    refine .bind (inferEach_proceeds h hs elements _) ?_
    rintro elements t - ⟨ht, helements⟩
    refine .pure ⟨ht, ?_⟩
    unfold tupleTy
    split
    · rename_i htype
      exact .tupleType helements (by simpa using htype.2)
    · exact .tuple helements
  | list span elements =>
    unfold infer
    refine .bind (inferElements_proceeds h hs elements _) ?_
    rintro ⟨ty, elements⟩ t - ⟨ht, helements, htypes, -⟩
    refine .pure ⟨ht, .list helements fun e he => ?_⟩
    rw [show ty = some e.ty from htypes e he, Option.getD_some]
  | unary span op operand =>
    unfold infer
    refine .bind (infer_proceeds h hs operand none) ?_
    rintro operand t - ⟨ht, hoperand⟩
    cases hty : unaryTy op operand.ty with
    | some ty => exact .pure ⟨ht, .unary hoperand (unaryTy_eq_some_iff.mp hty)⟩
    | none => exact .report _
  | binary span op left right =>
    unfold infer
    refine .bind (infer_proceeds h hs left none) ?_
    rintro left t - ⟨ht, hleft⟩
    refine .bind (infer_proceeds h ht right (some left.ty)) ?_
    rintro right u htu ⟨hu, hright⟩
    cases hty : binaryTy op left.ty right.ty with
    | some ty =>
      exact .pure ⟨hu, .binary (htu.typed hleft) hright (binaryTy_eq_some_iff.mp hty)⟩
    | none => exact .report _
  | expand span m => unfold infer; exact h.expands s c span m hint hs
  | closure span params result body =>
    unfold infer
    refine .bind (inferParams_proceeds h hs params) ?_
    intro params t _ ht
    refine .bind (ascribed_proceeds ht fun t ht => infer_proceeds h ht result _) ?_
    intro result u _ hu
    refine .bind (.inScope hu (R := fun t out =>
        out.1.Typed (Published t) ((Local.ofParams params).foldl Env.bind c.resolve))
      (fun _ _ _ h => h) fun v hv => ?_) ?_
    · refine .bind (.introduceParams params hv (Scopes.inside_push c)) ?_
      rintro - w - ⟨d, hw, hinside, henv⟩
      refine .bind (checkBlock_proceeds h hw body _) ?_
      rintro body x - ⟨hx, hbody⟩
      exact .pure ⟨⟨d, hx, hinside⟩, (henv ▸ hbody : _)⟩
    · rintro ⟨body, captures⟩ v - ⟨hv, hbody⟩
      refine .bind .expect ?_
      rintro - _ - ⟨rfl, rfl⟩
      exact .pure ⟨hv, .of_params hbody⟩
termination_by structural e

/-- **Arguments have the types of the parameters**, if there are as many as
parameters. That there are is checked by the call and not here. -/
theorem inferArguments_proceeds {s : State β} {c : Scopes} (h : Provides ctx demand expand)
    (hs : At c s) (es : List (Expr μ)) (ts : List Ty) :
    Proceeds ctx s
      (fun t out => At c t ∧ (∀ e ∈ out, e.Typed (Published t) c.resolve) ∧
        (es.length = ts.length → out.map (·.ty) = ts))
      (inferArguments ctx demand expand es ts s) := by
  match es, ts with
  | e :: es, ty :: ts =>
    unfold inferArguments
    refine .bind (infer_proceeds h hs e (some ty)) ?_
    rintro e t - ⟨ht, he⟩
    refine .bind .expect ?_
    rintro - _ - ⟨rfl, hty⟩
    refine .bind (inferArguments_proceeds h ht es ts) ?_
    rintro out u htu ⟨hu, hout, htypes⟩
    refine .pure ⟨hu, List.forall_mem_cons.mpr ⟨htu.typed he, hout⟩, fun hlength => ?_⟩
    rw [List.map_cons, hty, htypes (Nat.succ.inj hlength)]
  | [], ts =>
    unfold inferArguments
    exact .pure ⟨hs, fun e he => absurd he List.not_mem_nil,
      fun h => (List.length_eq_zero_iff.mp h.symm).symm⟩
  | e :: es, [] =>
    unfold inferArguments
    exact .pure ⟨hs, fun e he => absurd he List.not_mem_nil, fun h => absurd h (by simp)⟩
termination_by structural es

/-- The elements of a tuple obey the rules, each with its own hint. -/
theorem inferEach_proceeds {s : State β} {c : Scopes} (h : Provides ctx demand expand)
    (hs : At c s) (es : List (Expr μ)) (hints : List (Option Ty)) :
    Proceeds ctx s (fun t out => At c t ∧ ∀ e ∈ out, e.Typed (Published t) c.resolve)
      (inferEach ctx demand expand es hints s) := by
  match es, hints with
  | e :: es, hint :: hints =>
    unfold inferEach
    refine .bind (infer_proceeds h hs e hint) ?_
    rintro e t - ⟨ht, he⟩
    refine .bind (inferEach_proceeds h ht es hints) ?_
    rintro out u htu ⟨hu, hout⟩
    exact .pure ⟨hu, List.forall_mem_cons.mpr ⟨htu.typed he, hout⟩⟩
  | [], hints => unfold inferEach; exact .pure ⟨hs, fun e he => absurd he List.not_mem_nil⟩
  | e :: es, [] => unfold inferEach; exact .pure ⟨hs, fun e he => absurd he List.not_mem_nil⟩
termination_by structural es

/-- **The elements of a list have one type**, which is the one that was
expected, if one was. -/
theorem inferElements_proceeds {s : State β} {c : Scopes} (h : Provides ctx demand expand)
    (hs : At c s) (es : List (Expr μ)) (ty : Option Ty) :
    Proceeds ctx s
      (fun t out => At c t ∧ (∀ e ∈ out.2, e.Typed (Published t) c.resolve) ∧
        (∀ e ∈ out.2, out.1 = some e.ty) ∧ (ty.isSome → out.1 = ty))
      (inferElements ctx demand expand es ty s) := by
  match es, ty with
  | [], ty =>
    unfold inferElements
    exact .pure ⟨hs, fun e he => absurd he List.not_mem_nil,
      fun e he => absurd he List.not_mem_nil, fun _ => rfl⟩
  | e :: es, none =>
    unfold inferElements
    refine .bind (infer_proceeds h hs e none) ?_
    rintro e t - ⟨ht, he⟩
    refine .bind (inferElements_proceeds h ht es (some e.ty)) ?_
    rintro ⟨ty, out⟩ u htu ⟨hu, hout, htypes, hty⟩
    exact .pure ⟨hu, List.forall_mem_cons.mpr ⟨htu.typed he, hout⟩,
      List.forall_mem_cons.mpr ⟨hty rfl, htypes⟩, fun h => by cases h⟩
  | e :: es, some ty =>
    unfold inferElements
    refine .bind (infer_proceeds h hs e (some ty)) ?_
    rintro e t - ⟨ht, he⟩
    refine .bind .expect ?_
    rintro - _ - ⟨rfl, heq⟩
    refine .bind (inferElements_proceeds h ht es (some ty)) ?_
    rintro ⟨ty', out⟩ u htu ⟨hu, hout, htypes, hty⟩
    exact .pure ⟨hu, List.forall_mem_cons.mpr ⟨htu.typed he, hout⟩,
      List.forall_mem_cons.mpr ⟨heq ▸ hty rfl, htypes⟩, hty⟩
termination_by structural es

theorem inferParams_proceeds {s : State β} {c : Scopes} (h : Provides ctx demand expand)
    (hs : At c s) (ps : List (Param (Expr μ))) :
    Proceeds ctx s (fun t _ => At c t) (inferParams ctx demand expand ps s) := by
  match ps with
  | [] => unfold inferParams; exact .pure hs
  | ⟨name, ascription⟩ :: ps =>
    unfold inferParams
    refine .bind (ascribed_proceeds hs fun t ht => infer_proceeds h ht ascription _) ?_
    intro ty t _ ht
    refine .bind (inferParams_proceeds h ht ps) ?_
    intro out u _ hu
    exact .pure hu
termination_by structural ps

/-- **Checking a block** gives a block that obeys the typing rules. -/
theorem checkBlock_proceeds {s : State β} {c : Scopes} (h : Provides ctx demand expand)
    (hs : At c s) (b : Source.Block μ) (hint : Option Ty) :
    Proceeds ctx s (fun t (b : Term.Block) => At c t ∧ b.Typed (Published t) c.resolve)
      (checkBlock ctx demand expand b hint s) := by
  match b with
  | ⟨span, stmts⟩ =>
    unfold checkBlock
    refine .bind (R := fun t stmts => At c t ∧ Term.StmtsTyped (Published t) c.resolve stmts)
      (.inScope hs (fun _ _ _ h => h) fun t ht =>
        checkStmts_proceeds h ht (Scopes.inside_push c) stmts hint) ?_
    rintro stmts t - ⟨ht, hstmts⟩
    exact .pure ⟨ht, .mk hstmts⟩
termination_by structural b

/-- Statements obey the rules in the environment where each of them stands, so
the environment changes from one to the next. -/
theorem checkStmts_proceeds {s : State β} {c d : Scopes} (h : Provides ctx demand expand)
    (hs : At d s) (hinside : Scopes.Inside c d) (stmts : List (Stmt μ)) (hint : Option Ty) :
    Proceeds ctx s
      (fun t out => (∃ d', At d' t ∧ Scopes.Inside c d') ∧
        Term.StmtsTyped (Published t) d.resolve out)
      (checkStmts ctx demand expand stmts hint s) := by
  match stmts with
  | [] => unfold checkStmts; exact .pure ⟨⟨d, hs, hinside⟩, .nil⟩
  | stmt :: rest =>
    unfold checkStmts
    refine .bind (checkStmt_proceeds h hs stmt _) ?_
    rintro stmt t - ⟨ht, hstmt⟩
    -- the rest is checked with what the statement has introduced
    have hrest (u : State β) (d' : Scopes) (htu : Extends ctx t u) (hu : At d' u)
        (hinside' : Scopes.Inside c d') (henv : d'.resolve = stmt.scope d.resolve) :
        Proceeds ctx u
          (fun t out => (∃ d', At d' t ∧ Scopes.Inside c d') ∧
            Term.StmtsTyped (Published t) d.resolve out)
          ((checkStmts ctx demand expand rest hint >>= fun rest => pure (stmt :: rest)) u) := by
      refine .bind (checkStmts_proceeds h hu hinside' rest hint) ?_
      rintro rest v huv ⟨hv, hrest⟩
      exact .pure ⟨hv, .cons (hstmt.mono (htu.trans huv).types) (henv ▸ hrest)⟩
    cases stmt with
    | bind span name ty body =>
      refine .bind (.introduce ht hinside) ?_
      rintro - u htu ⟨d', hu, hinside', henv⟩
      exact hrest u d' htu hu hinside' henv
    | _ => exact hrest t d (.refl t) ht hinside rfl
termination_by structural stmts

/-- **A statement obeys the rules.** For an assignment this takes that the
variable can be assigned to, and for an arm of a branch that its type is the one
that the branch has. -/
theorem checkStmt_proceeds {s : State β} {c : Scopes} (h : Provides ctx demand expand)
    (hs : At c s) (stmt : Stmt μ) (hint : Option Ty) :
    Proceeds ctx s (fun t (stmt : Term.Stmt) => At c t ∧ stmt.Typed (Published t) c.resolve)
      (checkStmt ctx demand expand stmt hint s) := by
  match stmt with
  | .bind span name ascription body =>
    unfold checkStmt
    refine .bind (ascribed_proceeds hs fun t ht => infer_proceeds h ht ascription _) ?_
    intro ty t _ ht
    refine .bind (checkBlock_proceeds h ht body (some ty)) ?_
    rintro body u - ⟨hu, hbody⟩
    refine .bind .expect ?_
    rintro - _ - ⟨rfl, rfl⟩
    exact .pure ⟨hu, .bind hbody⟩
  | .assign span target op body =>
    unfold checkStmt
    refine .bind (typeOf_proceeds h.demands hs target) ?_
    rintro ⟨binding, ty⟩ t - ⟨ht, hresolve, hty⟩
    match binding with
    | .lexical ⟨name, .assignable, lty⟩ =>
      obtain rfl : ty = lty := hty
      refine .bind (checkBlock_proceeds h ht body (some ty)) ?_
      rintro body u - ⟨hu, hbody⟩
      -- plain assignments go straight to the comparison of types, the others by way of numbers
      have hlast (hnumber : op ≠ .assign → ty = .int ∨ ty = .float) :
          Proceeds ctx u (fun t (stmt : Term.Stmt) => At c t ∧ stmt.Typed (Published t) c.resolve)
            ((Analysis.expect .assignment ty body.ty body.resultSpan >>= fun _ =>
              pure (Term.Stmt.assign span target.text op body)) u) := by
        refine .bind .expect ?_
        rintro - _ - ⟨rfl, hbodyTy⟩
        exact .pure ⟨hu, .assign hresolve rfl hbody hbodyTy hnumber⟩
      cases hop : op.binary? with
      | some binary =>
        refine .reportIf fun hnumeric => hlast fun _ => ?_
        exact Ty.isNumeric_iff.mp (by simpa using hnumeric)
      | none =>
        refine hlast fun hne => ?_
        cases op with
        | assign => exact absurd rfl hne
        | _ => cases hop
    | .lexical ⟨_, .parameter, _⟩ => exact .report_bind _ _
    | .global _ => exact .report_bind _ _
  | .branch span condition yes no =>
    unfold checkStmt
    refine .bind (infer_proceeds h hs condition _) ?_
    rintro condition t - ⟨ht, hcondition⟩
    refine .reportIf fun hbool => ?_
    refine .bind (checkBlock_proceeds h ht yes hint) ?_
    rintro yes u htu ⟨hu, hyes⟩
    refine .bind (checkBlock_proceeds h hu no hint) ?_
    rintro no v huv ⟨hv, hno⟩
    refine .reportIf fun harms => ?_
    exact .pure ⟨hv, .branch ((htu.trans huv).typed hcondition) (not_not.mp hbool)
      (huv.typedBlock hyes) hno (not_not.mp harms).symm⟩
  | .eval e =>
    unfold checkStmt
    refine .bind (infer_proceeds h hs e hint) ?_
    rintro e t - ⟨ht, he⟩
    exact .pure ⟨ht, .eval he⟩
termination_by structural stmt

end

end

end Stagewise.Analysis
