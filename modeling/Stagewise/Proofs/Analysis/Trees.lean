import Stagewise.Proofs.Analysis.Follows

/-!
# Checking a tree

Checking an expression or a block is a detour: whatever else is analyzed on the
way, the declaration at hand is where it was. The term that comes of it is well
typed by what the declaration at hand knows in the end (`infer_follows` and its
companions).

The induction is on the tree. What is assumed of asking for the types of
declarations (`Answers`) and of expanding text (`Expands`) is the same thing
again, and is proved where those recursions are tied.
-/

namespace Stagewise.Analysis

open Source (Expr Stmt Param)

variable {β α μ : Type} {ctx : Context β} {stack : List String} {s t : State β}

/-- **A term is well typed** by what the declaration at hand knows. -/
abbrev Typed (t : State β) (e : Term) : Prop := e.WellTyped (Knows t)

/-- **The type of a declaration can be asked for** while a stack of others is
under analysis. Its name was looked up just before. -/
def Answers (ctx : Context β) (stack : List String) (demand : String → Check β Ty) : Prop :=
  ∀ s x, Checking ctx stack s → x ∈ ctx.declarations.names →
    Follows ctx stack stack s (fun t ty => Knows t x ty) (demand x (s.resolve x (.global x)))

/-- **Text can be expanded** while a stack of declarations is under analysis. -/
def Expands (ctx : Context β) (stack : List String)
    (expand : Span → μ → Option Ty → Check β Term) : Prop :=
  ∀ s span m hint, Checking ctx stack s → Follows ctx stack stack s Typed (expand span m hint s)

/-- **What the checking of trees leaves to others** can be done. -/
structure Services (ctx : Context β) (stack : List String) (demand : String → Check β Ty)
    (expand : Span → μ → Option Ty → Check β Term) : Prop where
  answers : Answers ctx stack demand
  expands : Expands ctx stack expand

/-! ## Names -/

/-- A binding has a type, by what the declaration at hand knows. -/
def BindingTy (t : State β) (name : String) : Binding × Ty → Prop
  | (.lexical l, ty) => ty = l.ty
  | (.global x, ty) => x = name ∧ Knows t x ty

/-- **A name is looked up by one act**, after which its type is asked for. The
declaration at hand then knows the type, since it is published and was looked
up. -/
theorem typeOf_follows {demand : String → Check β Ty} (hdemand : Answers ctx stack demand)
    (hs : Checking ctx stack s) (name : Name) :
    Follows ctx stack stack s (fun t => BindingTy t name.text) (typeOf demand name s) := by
  unfold typeOf
  refine .get_bind ?_
  cases hget : s.scopes.get name.text with
  | none => exact .report hs _
  | some found =>
    obtain ⟨binding, scopes⟩ := found
    obtain ⟨hscopes, hglobal⟩ := hs.book.scopes.get hget
    have hmove : Detour ctx stack stack s { s with scopes } := .move hs s.inAscription hscopes
    have ht := hmove.checking hs.book
    refine .after hmove ?_
    cases binding with
    | lexical l => exact ⟨.resolve ht (fun x hx => by cases hx), rfl⟩
    | global x =>
      obtain ⟨rfl, hx⟩ := hglobal x rfl
      show Follows ctx stack stack _ _
        ((demand name.text >>= fun ty => pure (Binding.global name.text, ty))
          (State.resolve { s with scopes } name.text (.global name.text)))
      exact .bind ht (hdemand _ _ ht hx) fun ty u _ hu hty => .pure hu ⟨rfl, hty⟩

/-! ## Requests -/

/-- **A request is accepted or refused.** -/
theorem send_cases (s : State β) (kind : Request) (subject : Subject) (text : String)
    (run : β → Except Backend.Fault α × β)
    (hrun : ∀ b, ctx.backend.respond kind text b = Backend.respond.fault? (run b)) :
    (∃ a, (run s.backend).1 = .ok a ∧ (ctx.backend.respond kind text s.backend).1 = none ∧
      send kind subject text run s = .ok a (s.told ctx kind subject text)) ∨
    ∃ f t, (ctx.backend.respond kind text s.backend).1 = some f ∧
      send kind subject text run s = .error (.fatal (.backend f)) t ∧
      Leaves s t [⟨kind, text, subject, false⟩] [] := by
  simp only [send, State.told, hrun]
  rcases run s.backend with ⟨f | a, b⟩
  · exact .inr ⟨f, _, rfl, rfl, rfl, (List.append_nil _).symm, rfl, rfl⟩
  · exact .inl ⟨a, rfl, rfl, rfl⟩

/-- What comes of having a term evaluated. -/
theorem evaluate_cases (ctx : Context β) {e : Term} (he : Typed s e) (hty : e.ty = .type) :
    (∃ v, Due ctx s .evaluate (.term e) e.lower.text ∧
      (ctx.backend.respond .evaluate e.lower.text s.backend).1 = none ∧
      ((∀ ty, v ≠ .type ty) → ctx.backend.typeAnswered s.backend e.lower.text = none) ∧
      evaluate ctx e s = .ok v (s.told ctx .evaluate (.term e) e.lower.text)) ∨
    ∃ f t, evaluate ctx e s = .error (.fatal f) t ∧ Crash ctx s f t := by
  unfold evaluate
  rw [get_bind_apply]
  cases hfind : e.globals.find? (· ∉ s.defined) with
  | some x =>
    obtain ⟨ty, hx⟩ := Term.WellTyped.of_mem_globals e he x (List.mem_of_find?_eq_some hfind)
    have hundefined : x ∉ s.defined := by simpa using List.find?_some hfind
    exact .inr ⟨_, s, rfl, .early hx hundefined (.refl s)⟩
  | none =>
    have hdefined : ∀ x ∈ e.globals, x ∈ s.defined := by simpa using hfind
    have due : Due ctx s .evaluate (.term e) e.lower.text := .evaluate he hty hdefined
    obtain ⟨d, hd, haccepted, hsend⟩ | ⟨f, t, hanswer, hsend, hleaves⟩ :=
      send_cases s .evaluate (.term e) _ (ctx.backend.evaluate e.lower.text) fun _ => rfl
    · simp only [bind_of_ok hsend]
      cases hv : Value.decode [] d with
      | ok v =>
        refine .inl ⟨v, due, haccepted, fun hother => ?_, rfl⟩
        unfold Backend.typeAnswered
        rw [hd]
        simp only [hv]
        split
        · rename_i hv'
          cases hv'
          exact absurd rfl (hother _)
        · rfl
      | error cause =>
        refine .inr ⟨_, _, rfl, .misanswered due ?_ ⟨rfl, (List.append_nil _).symm, rfl, rfl⟩⟩
        simp [Backend.typeAnswered, hd, hv]
    · exact .inr ⟨_, t, bind_of_error hsend _, .refused due hanswer hleaves⟩

/-- To fold a term is one act. -/
theorem folded_follows (hs : Checking ctx stack s) (e : Term) :
    Follows ctx stack stack s (fun t v => ∀ x ∈ v, Fold.term t.values e = some x)
      (folded ctx e s) := by
  refine ⟨.fold hs, fun x hx => ?_⟩
  exact (Option.ite_none_right_eq_some.mp hx).2

/-- **An ascription stands for a type**, unless something is wrong with it. -/
theorem ascribed_follows (hs : Checking ctx stack s) {step : Check β Term} {span : Span}
    (hstep : ∀ t, Checking ctx stack t → Follows ctx stack stack t Typed (step t)) :
    Follows ctx stack stack s (fun _ _ => True) (ascribed ctx span step s) := by
  unfold ascribed
  refine .bind hs (.inAscription hs (fun _ _ _ h => h) fun t ht _ => hstep t ht) ?_
  intro e t _ ht he
  refine .bind ht (.expect ht) ?_
  rintro - _ - - ⟨rfl, hty⟩
  refine .bind ht (folded_follows ht e) ?_
  intro v u htu hu hv
  have he := htu.wellTyped ht he
  cases v with
  | some v =>
    cases v with
    | type ty => exact .pure hu trivial
    | _ =>
      exact .stop (.misfolded he hty (hv _ rfl) (fun ty h => by cases h) (.refl _))
  | none =>
    obtain ⟨v, due, haccepted, hother, hv⟩ | ⟨f, w, hf, hw⟩ := evaluate_cases ctx he hty
    · simp only [bind_of_ok hv]
      have hact := Act.evaluate due haccepted
      cases v with
      | type ty =>
        exact ⟨⟨.single hact, fun _ _ _ hp => hp.evaluate due _ _, hu.active⟩, trivial⟩
      | _ =>
        exact ⟨_, .refl, .misanswered due (hother fun ty h => by cases h)
          ⟨rfl, (List.append_nil _).symm, rfl, rfl⟩⟩
    · simp only [bind_of_error hf]
      exact ⟨_, .refl, hw⟩

/-!
## Trees

This is the same recursion as that of `Proofs.Analysis.Inference`, with another
thing to say. There it is about types and places, from any state. Here it is
about acts, so the books have to be in order and the declaration at hand has to
be on top of the stack, and in return all that happens is known.
-/

section

variable {demand : String → Check β Ty} {expand : Span → μ → Option Ty → Check β Term}

mutual

/-- **Checking an expression is a detour**, and gives a well typed term. -/
theorem infer_follows {s : State β} (h : Services ctx stack demand expand)
    (hs : Checking ctx stack s) (e : Expr μ) (hint : Option Ty) :
    Follows ctx stack stack s Typed (infer ctx demand expand e hint s) := by
  -- each case goes through the steps of its kind of tree, from the state that the last one has led
  -- to
  cases e with
  | int span n => unfold infer; exact .pure hs rfl
  | float span x => unfold infer; exact .pure hs rfl
  | bool span b => unfold infer; exact .pure hs rfl
  | string span x => unfold infer; exact .pure hs rfl
  | typeLiteral span ty => unfold infer; exact .pure hs (.type ty)
  | var name =>
    unfold infer
    refine .bind hs (typeOf_follows h.answers hs name) ?_
    rintro ⟨x | l, ty⟩ t - ht hty
    · exact .pure ht hty.2
    · exact .pure ht hty
  | call span callee arguments =>
    unfold infer
    refine .bind hs (infer_follows h hs callee none) ?_
    intro callee t _ ht hcallee
    cases hty : callee.ty with
    | fn argument result =>
      refine .reportIf ht fun hlength => ?_
      refine .bind ht (inferArguments_follows h ht arguments argument.parameters) ?_
      rintro arguments u htu hu ⟨harguments, htypes⟩
      have htypes := htypes (not_not.mp hlength).symm
      exact .pure hu ⟨htu.wellTyped ht hcallee, harguments, argument, hty, htypes⟩
    | _ => exact .report ht _
  | tuple span elements =>
    unfold infer
    refine .bind hs (inferEach_follows h hs elements _) ?_
    intro elements t _ ht helements
    refine .pure ht ⟨helements, ?_⟩
    unfold tupleTy
    split
    · rename_i htype
      exact .inr ⟨rfl, by simpa using htype.2⟩
    · exact .inl rfl
  | list span elements =>
    unfold infer
    refine .bind hs (inferElements_follows h hs elements _) ?_
    rintro ⟨ty, elements⟩ t _ ht ⟨helements, htypes, -⟩
    refine .pure ht ⟨helements, _, rfl, fun e he => ?_⟩
    rw [show ty = some e.ty from htypes e he, Option.getD_some]
  | unary span op operand =>
    unfold infer
    refine .bind hs (infer_follows h hs operand none) ?_
    intro operand t _ ht hoperand
    cases hty : unaryTy op operand.ty with
    | some ty => exact .pure ht ⟨hoperand, hty⟩
    | none => exact .report ht _
  | binary span op left right =>
    unfold infer
    refine .bind hs (infer_follows h hs left none) ?_
    intro left t _ ht hleft
    refine .bind ht (infer_follows h ht right (some left.ty)) ?_
    intro right u htu hu hright
    cases hty : binaryTy op left.ty right.ty with
    | some ty => exact .pure hu ⟨htu.wellTyped ht hleft, hright, hty⟩
    | none => exact .report hu _
  | expand span m => unfold infer; exact h.expands s span m hint hs
  | closure span params result body =>
    unfold infer
    refine .bind hs (inferParams_follows h hs params) ?_
    intro params t _ ht _
    refine .bind ht (ascribed_follows ht fun t ht => infer_follows h ht result _) ?_
    intro result u _ hu _
    refine .bind hu (R := fun t b => b.1.WellTyped (Knows t))
      (.inScope hu (fun _ _ _ h => h) fun v hv _ => ?_) ?_
    · refine .bind hv (.introduceParams hv params) fun _ w _ hw _ => ?_
      refine .bind hw (checkBlock_follows h hw body _) fun body x _ hx hbody => ?_
      exact .pure hx hbody
    · rintro ⟨body, captures⟩ v - hv hbody
      refine .bind hv (.expect hv) ?_
      rintro - _ - - ⟨rfl, hty⟩
      refine .pure hv ⟨hbody, ?_⟩
      simp [← hty, Function.comp_def]
termination_by structural e

/-- Arguments are well typed, and have the types of the parameters if there are
as many. -/
theorem inferArguments_follows {s : State β} (h : Services ctx stack demand expand)
    (hs : Checking ctx stack s) (es : List (Expr μ))
    (ts : List Ty) :
    Follows ctx stack stack s
      (fun t out => Term.WellTypedAll (Knows t) out ∧ (es.length = ts.length → out.map (·.ty) = ts))
      (inferArguments ctx demand expand es ts s) := by
  match es, ts with
  | e :: es, ty :: ts =>
    unfold inferArguments
    refine .bind hs (infer_follows h hs e (some ty)) ?_
    intro e t _ ht he
    refine .bind ht (.expect ht) ?_
    rintro - _ - - ⟨rfl, hty⟩
    refine .bind ht (inferArguments_follows h ht es ts) ?_
    rintro out u htu hu ⟨hout, htypes⟩
    refine .pure hu ⟨⟨htu.wellTyped ht he, hout⟩, fun hlength => ?_⟩
    rw [List.map_cons, hty, htypes (Nat.succ.inj hlength)]
  | [], ts =>
    unfold inferArguments
    exact .pure hs ⟨trivial, fun h => (List.length_eq_zero_iff.mp h.symm).symm⟩
  | e :: es, [] =>
    unfold inferArguments
    exact .pure hs ⟨trivial, fun h => absurd h (by simp)⟩
termination_by structural es

/-- The elements of a tuple are well typed. -/
theorem inferEach_follows {s : State β} (h : Services ctx stack demand expand)
    (hs : Checking ctx stack s) (es : List (Expr μ))
    (hints : List (Option Ty)) :
    Follows ctx stack stack s (fun t => Term.WellTypedAll (Knows t))
      (inferEach ctx demand expand es hints s) := by
  match es, hints with
  | e :: es, hint :: hints =>
    unfold inferEach
    refine .bind hs (infer_follows h hs e hint) ?_
    intro e t _ ht he
    refine .bind ht (inferEach_follows h ht es hints) ?_
    intro out u htu hu hout
    exact .pure hu ⟨htu.wellTyped ht he, hout⟩
  | [], hints => unfold inferEach; exact .pure hs trivial
  | e :: es, [] => unfold inferEach; exact .pure hs trivial
termination_by structural es

/-- The elements of a list are well typed, and have one type. -/
theorem inferElements_follows {s : State β} (h : Services ctx stack demand expand)
    (hs : Checking ctx stack s) (es : List (Expr μ))
    (ty : Option Ty) :
    Follows ctx stack stack s
      (fun t out => Term.WellTypedAll (Knows t) out.2 ∧ (∀ e ∈ out.2, out.1 = some e.ty) ∧
        (ty.isSome → out.1 = ty))
      (inferElements ctx demand expand es ty s) := by
  match es, ty with
  | [], ty =>
    unfold inferElements
    exact .pure hs ⟨trivial, fun e he => absurd he List.not_mem_nil, fun _ => rfl⟩
  | e :: es, none =>
    unfold inferElements
    refine .bind hs (infer_follows h hs e none) ?_
    intro e t _ ht he
    refine .bind ht (inferElements_follows h ht es (some e.ty)) ?_
    rintro ⟨ty, out⟩ u htu hu ⟨hout, htypes, hty⟩
    exact .pure hu ⟨⟨htu.wellTyped ht he, hout⟩, List.forall_mem_cons.mpr ⟨hty rfl, htypes⟩,
      fun h => by cases h⟩
  | e :: es, some ty =>
    unfold inferElements
    refine .bind hs (infer_follows h hs e (some ty)) ?_
    intro e t _ ht he
    refine .bind ht (.expect ht) ?_
    rintro - _ - - ⟨rfl, heq⟩
    refine .bind ht (inferElements_follows h ht es (some ty)) ?_
    rintro ⟨ty', out⟩ u htu hu ⟨hout, htypes, hty⟩
    exact .pure hu ⟨⟨htu.wellTyped ht he, hout⟩,
      List.forall_mem_cons.mpr ⟨heq ▸ hty rfl, htypes⟩, hty⟩
termination_by structural es

theorem inferParams_follows {s : State β} (h : Services ctx stack demand expand)
    (hs : Checking ctx stack s)
    (ps : List (Param (Expr μ))) :
    Follows ctx stack stack s (fun _ _ => True) (inferParams ctx demand expand ps s) := by
  match ps with
  | [] => unfold inferParams; exact .pure hs trivial
  | ⟨name, ascription⟩ :: ps =>
    unfold inferParams
    refine .bind hs (ascribed_follows hs fun t ht => infer_follows h ht ascription _) ?_
    intro ty t _ ht _
    refine .bind ht (inferParams_follows h ht ps) ?_
    intro out u _ hu _
    exact .pure hu trivial
termination_by structural ps

/-- **Checking a block is a detour**, and gives a well typed block. -/
theorem checkBlock_follows {s : State β} (h : Services ctx stack demand expand)
    (hs : Checking ctx stack s) (b : Source.Block μ)
    (hint : Option Ty) :
    Follows ctx stack stack s (fun t (b : Term.Block) => b.WellTyped (Knows t))
      (checkBlock ctx demand expand b hint s) := by
  match b with
  | ⟨span, stmts⟩ =>
    unfold checkBlock
    refine .bind hs (R := fun t => Term.WellTypedStmts (Knows t))
      (.inScope hs (fun _ _ _ h => h) fun t ht _ => checkStmts_follows h ht stmts hint) ?_
    intro stmts t _ ht hstmts
    exact .pure ht ⟨hstmts, rfl⟩
termination_by structural b

/-- Statements are well typed by what is known in the end. What the first ones
were well typed by was known before, and is known still. -/
theorem checkStmts_follows {s : State β} (h : Services ctx stack demand expand)
    (hs : Checking ctx stack s) (stmts : List (Stmt μ))
    (hint : Option Ty) :
    Follows ctx stack stack s (fun t => Term.WellTypedStmts (Knows t))
      (checkStmts ctx demand expand stmts hint s) := by
  match stmts with
  | [] => unfold checkStmts; exact .pure hs trivial
  | stmt :: rest =>
    unfold checkStmts
    refine .bind hs (checkStmt_follows h hs stmt _) ?_
    intro stmt t _ ht hstmt
    have hrest : ∀ u, Detour ctx stack stack t u → Checking ctx stack u →
        Follows ctx stack stack u (fun t => Term.WellTypedStmts (Knows t))
          ((checkStmts ctx demand expand rest hint >>= fun rest => pure (stmt :: rest)) u) := by
      intro u htu hu
      refine .bind hu (checkStmts_follows h hu rest hint) ?_
      intro rest v huv hv hrest
      have hstmt := (htu.trans huv).wellTypedStmts ht hstmt
      exact .pure hv (Term.wellTypedStmts_cons.mpr ⟨hstmt, hrest⟩)
    cases stmt with
    | bind _ name ty _ =>
      exact .bind ht (.introduce ht) fun _ u htu hu _ => hrest u htu hu
    | _ => exact hrest t (.refl ht) ht
termination_by structural stmts

/-- A statement is well typed. -/
theorem checkStmt_follows {s : State β} (h : Services ctx stack demand expand)
    (hs : Checking ctx stack s) (stmt : Stmt μ)
    (hint : Option Ty) :
    Follows ctx stack stack s (fun t stmt => Term.WellTypedStmts (Knows t) [stmt])
      (checkStmt ctx demand expand stmt hint s) := by
  match stmt with
  | .bind span name ascription body =>
    unfold checkStmt
    refine .bind hs (ascribed_follows hs fun t ht => infer_follows h ht ascription _) ?_
    intro ty t _ ht _
    refine .bind ht (checkBlock_follows h ht body (some ty)) ?_
    intro body u _ hu hbody
    refine .bind hu (.expect hu) ?_
    rintro - _ - - ⟨rfl, hty⟩
    exact .pure hu ⟨hbody, hty, trivial⟩
  | .assign span target op body =>
    unfold checkStmt
    refine .bind hs (typeOf_follows h.answers hs target) ?_
    rintro ⟨binding, ty⟩ t - ht -
    match binding with
    | .lexical ⟨_, .assignable, _⟩ =>
      refine .bind ht (checkBlock_follows h ht body (some ty)) ?_
      intro body u _ hu hbody
      have hlast : Follows ctx stack stack u (fun t stmt => Term.WellTypedStmts (Knows t) [stmt])
          ((Analysis.expect .assignment ty body.ty body.resultSpan >>= fun _ =>
            pure (Term.Stmt.assign span target.text op body)) u) := by
        refine .bind hu (.expect hu) ?_
        rintro - _ - - ⟨rfl, -⟩
        exact .pure hu ⟨hbody, trivial⟩
      cases op.binary? with
      | some binary => exact .reportIf hu fun _ => hlast
      | none => exact hlast
    | .lexical ⟨_, .parameter, _⟩ => exact .report_bind ht _ _
    | .global _ => exact .report_bind ht _ _
  | .branch span condition yes no =>
    unfold checkStmt
    refine .bind hs (infer_follows h hs condition _) ?_
    intro condition t _ ht hcondition
    refine .reportIf ht fun hbool => ?_
    refine .bind ht (checkBlock_follows h ht yes hint) ?_
    intro yes u htu hu hyes
    refine .bind hu (checkBlock_follows h hu no hint) ?_
    intro no v huv hv hno
    refine .reportIf hv fun harms => ?_
    exact .pure hv ⟨⟨(htu.trans huv).wellTyped ht hcondition, not_not.mp hbool⟩,
      ⟨huv.wellTypedBlock hu hyes, rfl⟩, ⟨hno, (not_not.mp harms).symm⟩, trivial⟩
  | .eval e =>
    unfold checkStmt
    refine .bind hs (infer_follows h hs e hint) ?_
    intro e t _ ht he
    exact .pure ht ⟨he, trivial⟩
termination_by structural stmt

end

end

end Stagewise.Analysis
