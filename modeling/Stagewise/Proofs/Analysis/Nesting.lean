import Stagewise.Proofs.Analysis.Congruence

/-!
# Declarations under analysis

A declaration that is analyzed asks for the types of others, which are analyzed
for that, and so on. This comes to an end, since a declaration is **marked**
before it asks for anything: from then on its type is being computed, and when
that is over its type is known. What is marked is not analyzed again on demand.
So whoever asks has one declaration less to ask for (`room`), and a recursion
that is cut off when there is nothing left to ask for is the same as one that is
not.

Two ways to settle declarations that both go on like this (`Unfolds`) agree,
whatever they do when they are cut off, or when they come across a declaration
that is already under analysis (`Unfolds.agree`): neither happens.
-/

namespace Stagewise.Analysis

open Source (Expr Invocation)

variable {β α γ μ : Type} {ctx : Context β} {s t u : State β} {g : Prop} {n : Nat}

/-! ## Marks -/

/-- **The type of a declaration is known, or being computed.** -/
def Marked (s : State β) (x : String) : Prop := x ∈ s.inProgress ∨ (s.types.lookup x).isSome = true

instance (s : State β) (x : String) : Decidable (Marked s x) :=
  inferInstanceAs (Decidable (_ ∨ _))

/-- **How many declarations there are left to ask for.** -/
def room (ctx : Context β) (s : State β) : Nat :=
  (ctx.declarations.names.filter fun x => ¬Marked s x).length

/-- **What was marked is marked still**, and the same declarations are under
analysis. -/
structure Held (s t : State β) : Prop where
  marked : ∀ x, Marked s x → Marked t x
  active : t.active = s.active

namespace Held

theorem refl (s : State β) : Held s s := ⟨fun _ h => h, rfl⟩

/-- Marks that are kept and kept again are kept. -/
theorem trans (h : Held s t) (h' : Held t u) : Held s u :=
  ⟨fun x hx => h'.marked x (h.marked x hx), h'.active.trans h.active⟩

/-- Nothing was done that has to do with marks. -/
theorem of_same (active : t.active = s.active) (inProgress : t.inProgress = s.inProgress)
    (types : t.types = s.types) : Held s t where
  marked x hx := by
    rw [Marked, inProgress, types]
    exact hx
  active := active

/-- A type that is published makes for a mark, as the declaration need not be
analyzed for it any more. -/
theorem publish (name : String) (ty : Ty) :
    Held s { s with types := (name, ty) :: s.types } where
  marked x hx := by
    refine hx.imp_right fun hx => ?_
    rw [List.lookup_cons]
    split
    · rfl
    · exact hx
  active := rfl

end Held

/-- **There is room** for `n` declarations. If `g` holds then what is under
analysis is marked. -/
structure Roomy (ctx : Context β) (g : Prop) (n : Nat) (s : State β) : Prop where
  room : room ctx s ≤ n
  marked : g → ∀ x ∈ s.active, Marked s x

/-- **There is never more room than there was.** -/
theorem room_le_of_held (h : Held s t) : room ctx t ≤ room ctx s := by
  refine List.Sublist.length_le (List.monotone_filter_right _ fun x hx => ?_)
  simp only [decide_eq_true_eq] at hx ⊢
  exact fun hs => hx (h.marked x hs)

/-- Where there was room for some declarations there is still no more than
that. -/
theorem Roomy.held (hs : Roomy ctx g n s) (h : Held s t) : Roomy ctx g n t where
  room := Nat.le_trans (room_le_of_held h) hs.room
  marked hg x hx := h.marked x (hs.marked hg x (h.active ▸ hx))

/-- A declaration gets its mark. -/
abbrev State.mark (s : State β) (name : String) : State β :=
  { s with inProgress := s.inProgress.insert name }

/-- A mark is given to one declaration. -/
theorem marked_mark {x name : String} : Marked (s.mark name) x ↔ x = name ∨ Marked s x := by
  simp only [Marked, List.mem_insert_iff, or_assoc]

/-- **A mark takes room**, unless there was one before. -/
theorem room_mark_lt {name : String} (hname : name ∈ ctx.declarations.names)
    (hnew : ¬Marked s name) : room ctx (s.mark name) < room ctx s := by
  unfold room
  have hsplit : (ctx.declarations.names.filter fun x => ¬Marked (s.mark name) x)
      = (ctx.declarations.names.filter fun x => ¬Marked s x).filter fun x => x ≠ name := by
    rw [List.filter_filter]
    refine List.filter_congr fun x _ => ?_
    simp [marked_mark]
  rw [hsplit]
  refine List.length_filter_lt_length_iff_exists.mpr ⟨name, ?_, by simp⟩
  simpa using ⟨hname, hnew⟩

/-- There is never room for as many declarations as there are, once one of them
is marked. -/
theorem room_mark_lt_count {name : String} (hname : name ∈ ctx.declarations.names) :
    room ctx (s.mark name) < ctx.declarations.count := by
  unfold room
  have hlength : ctx.declarations.names.length = ctx.declarations.count := List.length_map _
  rw [← hlength]
  refine List.length_filter_lt_length_iff_exists.mpr ⟨name, hname, ?_⟩
  simp [marked_mark]

/-! ## Steps that agree -/

/-- Marks are kept by a sequence if each of its steps keeps them. -/
theorem EndsIn.bind {step : Check β α} {next : α → Check β γ} (h : EndsIn (Held s) (step s))
    (hnext : ∀ a t, EndsIn (Held t) (next a t)) : EndsIn (Held s) ((step >>= next) s) :=
  h.bindOk (fun _ ht => ht) fun a t _ ht => (hnext a t).imp fun _ => ht.trans

/-- **Two steps agree** in a state, and keep the marks. -/
structure AgreeAt (s : State β) (x y : Check β α) : Prop where
  eq : x s = y s
  held : EndsIn (Held s) (x s)

namespace AgreeAt

/-- A step agrees with itself, if it has nothing to do with marks. -/
theorem of_quiet {x : Check β α} (h : EndsIn (Held s) (x s)) : AgreeAt s x x := ⟨rfl, h⟩

theorem stop (f : Fatal) : AgreeAt s (Analysis.stop f : Check β α) (Analysis.stop f) :=
  of_quiet (Held.refl s)

/-- Steps agree if from another state on they do what steps do that agree
there. -/
theorem after {x y x' y' : Check β α} (h : AgreeAt t x y) (hst : Held s t) (hx : x' s = x t)
    (hy : y' s = y t) : AgreeAt s x' y' where
  eq := by rw [hx, hy, h.eq]
  held := by
    rw [hx]
    exact h.held.imp fun _ => hst.trans

/-- **A sequence agrees** if its first step does, and the rest from where that
ends. -/
theorem bind {x y : Check β α} {f f' : α → Check β γ} (h : AgreeAt s x y)
    (hnext : ∀ a t, x s = .ok a t → Held s t → AgreeAt t (f a) (f' a)) :
    AgreeAt s (x >>= f) (y >>= f') := by
  have heq := h.eq
  have hheld := h.held
  cases hx : x s with
  | ok a t =>
    rw [hx] at heq hheld
    exact (hnext a t hx hheld).after hheld (bind_of_ok hx _) (bind_of_ok heq.symm _)
  | error e t =>
    rw [hx] at heq hheld
    constructor
    · rw [bind_of_error hx, bind_of_error heq.symm]
    · rw [bind_of_error hx]
      exact hheld

/-- Steps agree if they are steps that agree, in a place of their own. -/
theorem place {x y x' y' : Check β α} {leave : State β → State β} (h : AgreeAt t x y)
    (hx : x' s = leaving leave (x t)) (hy : y' s = leaving leave (y t)) (hst : Held s t)
    (hleave : ∀ u, Held u (leave u)) : AgreeAt s x' y' where
  eq := by rw [hx, hy, h.eq]
  held := by
    rw [hx]
    exact h.held.leaving fun u hu => (hst.trans hu).trans (hleave u)

/-- To enter a scope and to leave it again has nothing to do with marks. -/
theorem inScope {x y : Check β α} (h : AgreeAt { s with scopes := s.scopes.push } x y) :
    AgreeAt s (inScope x) (inScope y) :=
  h.place (inScope_apply x s) (inScope_apply y s) (.of_same rfl rfl rfl) fun _ =>
    .of_same rfl rfl rfl

theorem inAscription {x y : Check β α} (h : AgreeAt { s with inAscription := true } x y) :
    AgreeAt s (inAscription x) (inAscription y) :=
  h.place (inAscription_apply x s) (inAscription_apply y s) (.of_same rfl rfl rfl) fun _ =>
    .of_same rfl rfl rfl

end AgreeAt

/-- **Two steps agree** wherever there is room for `n` declarations. -/
def Agree (ctx : Context β) (g : Prop) (n : Nat) {α : Type} (x y : Check β α) : Prop :=
  ∀ s, Roomy ctx g n s → AgreeAt s x y

theorem introduce_held (kind : Local.Kind) (name : Name) (ty : Ty) :
    EndsIn (Held s) (introduce kind name ty s) := by
  cases h : s.scopes.add name (.lexical ⟨name, kind, ty⟩) with
  | ok scopes =>
    rw [introduce_of_ok h]
    exact Held.of_same rfl rfl rfl
  | error d =>
    rw [introduce_of_error h]
    exact Held.of_same rfl rfl rfl

/-- **Agreement is kept by the operations of steps.** -/
theorem congruence_agree (ctx : Context β) (g : Prop) (n : Nat) : Congruence (Agree ctx g n) where
  pure _ s _ := .of_quiet (Held.refl s)
  bind hstep hnext s hs := (hstep s hs).bind fun a t _ hst => hnext a t (hs.held hst)
  report _ _ _ := .of_quiet (Held.of_same rfl rfl rfl)
  inScope hstep _ hs := .inScope (hstep _ (hs.held (.of_same rfl rfl rfl)))
  introduce kind name ty _ _ := .of_quiet (introduce_held kind name ty)
  capturing hstep _ hs := by
    refine .inScope (.bind (hstep _ (hs.held (.of_same rfl rfl rfl))) fun a t _ _ => ?_)
    exact .of_quiet (Held.refl t)

/-!
## Requests

All that is said to the backend is the same for both, as they agree on what to
say, and none of it has to do with marks.
-/

/-- A request keeps the marks, whatever the answer is. -/
theorem send_held (kind : Request) (subject : Subject) (text : String)
    (run : β → Except Backend.Fault α × β) : EndsIn (Held s) (send kind subject text run s) := by
  unfold send
  split
  · exact Held.of_same rfl rfl rfl
  · exact Held.of_same rfl rfl rfl

/-- So does a definition, and a definition that is not made. -/
theorem define_held (name : String) (subject : Subject) (text : String) :
    EndsIn (Held s) (define ctx name subject text s) := by
  unfold define
  refine .get_bind ?_
  split
  · exact Held.refl s
  · exact (send_held ..).imp fun _ => .trans (.of_same rfl rfl rfl)

/-- So does an evaluation. -/
theorem evaluate_held (e : Term) : EndsIn (Held s) (evaluate ctx e s) := by
  unfold evaluate
  refine .get_bind ?_
  cases e.globals.find? (· ∉ s.defined) with
  | some x => exact Held.refl s
  | none =>
    refine .bind (send_held ..) fun d t => ?_
    cases Value.decode [] d with
    | ok v => exact Held.refl t
    | error cause => exact Held.refl t

theorem expansion_held (binding : Binding) (text : String) :
    EndsIn (Held s) (expansion ctx binding text s) := by
  unfold expansion
  refine .get_bind ?_
  cases s.cache.get? text with
  | some d => exact Held.of_same rfl rfl rfl
  | none => exact .bind (send_held ..) fun d t => Held.of_same rfl rfl rfl

/-! ## Names, ascriptions and expansions -/

/-- **Names agree** if asking for types does. The name was found before that, by
both in the same way. -/
theorem agree_typeOf {demand demand' : String → Check β Ty}
    (h : ∀ x, Agree ctx g n (demand x) (demand' x)) (name : Name) :
    Agree ctx g n (typeOf demand name) (typeOf demand' name) := by
  intro s hs
  cases hget : s.scopes.get name.text with
  | none =>
    have hreport := (congruence_agree ctx g n).report (α := Binding × Ty) (s.unknown name) s hs
    exact hreport.after (.refl s) (typeOf_of_none hget) (typeOf_of_none hget)
  | some found =>
    obtain ⟨binding, scopes⟩ := found
    have hfound : Held s (s.found name.text binding scopes) := .of_same rfl rfl rfl
    cases binding with
    | lexical l =>
      have hpure := (congruence_agree ctx g n).pure (Binding.lexical l, l.ty) _ (hs.held hfound)
      exact hpure.after hfound (typeOf_of_lexical hget) (typeOf_of_lexical hget)
    | global x =>
      have hdemand := (congruence_agree ctx g n).bind (h x) fun ty =>
        (congruence_agree ctx g n).pure (Binding.global x, ty)
      exact (hdemand _ (hs.held hfound)).after hfound (typeOf_of_global hget)
        (typeOf_of_global hget)

/-- **Ascriptions agree** if the steps that check them do. -/
theorem agree_ascribed {x y : Check β Term} (span : Span) (h : Agree ctx g n x y) :
    Agree ctx g n (ascribed ctx span x) (ascribed ctx span y) := by
  have hc := congruence_agree ctx g n
  unfold ascribed
  refine hc.bind (fun s hs => .inAscription (h _ (hs.held (.of_same rfl rfl rfl)))) fun e => ?_
  refine hc.bind (hc.expect _ _ _ _) fun _ => ?_
  refine hc.bind (fun s _ => .of_quiet (Held.of_same rfl rfl rfl)) fun v => ?_
  cases v with
  | some v => cases v <;> exact fun s _ => .of_quiet (Held.refl s)
  | none =>
    refine hc.bind (fun s _ => .of_quiet (evaluate_held e)) fun v => ?_
    cases v <;> exact fun s _ => .of_quiet (Held.refl s)

/-- What is asked of an expander is the same for both. -/
theorem expandsAlike_agree : ExpandsAlike (Agree ctx g n) ctx ctx where
  defined d e x y next s hs := by
    by_cases h : d ∈ s.defined
    · exact (next s hs).after (.refl s) (defined_of_mem h) (defined_of_mem h)
    · exact (AgreeAt.stop (.internal e)).after (.refl s) (defined_of_not_mem h)
        (defined_of_not_mem h)
  expansion _ _ _ _ := .of_quiet (expansion_held ..)

/-- **The checking of trees agrees** if the types of declarations are asked for
in ways that do. -/
theorem corresponds_agree {demand demand' : String → Check β Ty}
    (h : ∀ x, Agree ctx g n (demand x) (demand' x)) :
    Corresponds (Agree ctx g n) ctx ctx demand demand' (expand ctx demand)
      (expand ctx demand') where
  typeOf := agree_typeOf h
  ascribed e := agree_ascribed e.span
  expand := (congruence_agree ctx g n).expand expandsAlike_agree (agree_typeOf h) fun e hint =>
    (congruence_agree ctx g n).infer ⟨agree_typeOf h, fun e => agree_ascribed e.span,
      fun _ m _ => m.elim⟩ e hint

/-! ## One declaration -/

/-- To mark a declaration keeps the marks there are. -/
theorem mark_held (name : String) : Held s (s.mark name) :=
  ⟨fun _ hx => marked_mark.mpr (.inr hx), rfl⟩

/-- What is known need not be marked any more. -/
theorem unmark_held {name : String} (h : (s.types.lookup name).isSome = true) :
    Held s { s with inProgress := s.inProgress.erase name } where
  marked x hx := by
    by_cases hne : x = name
    · exact .inr (hne ▸ h)
    · exact hx.imp_left (List.mem_erase_of_ne hne).mpr
  active := rfl

/-- **A function is examined alike**, with room for one declaration less than
there was before it was marked. When its body is checked its type is known, so
it is still marked. -/
theorem examineFunction_agree {demand demand' : String → Check β Ty}
    (h : ∀ x, Agree ctx g n (demand x) (demand' x)) (f : Source.Function)
    (hs : Roomy ctx g n (s.mark f.name.text)) :
    AgreeAt s (examineFunction ctx demand f) (examineFunction ctx demand' f) := by
  have hc := congruence_agree ctx g n
  have hd := corresponds_agree h
  unfold examineFunction
  refine .bind (.of_quiet (mark_held f.name.text)) fun _ t ht _ => ?_
  cases ht
  refine .bind (hc.inferParams hd f.params _ hs) fun params t _ hheld => ?_
  have ht := hs.held hheld
  refine .bind (agree_ascribed _ (hc.infer hd f.result _) t ht) fun result u _ hheld => ?_
  have hu := ht.held hheld
  -- the type is published, and it is not being computed any more
  refine .bind (.of_quiet (Held.publish ..)) fun _ v hv hheld => ?_
  have hv' := hu.held hheld
  cases hv
  refine .bind (.of_quiet (unmark_held (by simp))) fun _ w _ hheld => ?_
  have hw := hv'.held hheld
  refine .bind (.of_quiet (send_held ..)) fun _ x _ hheld => ?_
  refine .bind (.inScope ?_) fun body y _ hheld' => ?_
  · refine hc.bind (hc.introduceParams params) (fun _ => hc.checkBlock hd f.body _) _ ?_
    exact (hw.held hheld).held (.of_same rfl rfl rfl)
  · refine hc.bind (hc.expect _ _ _ _) (fun _ => hc.reportIf ?_) y ((hw.held hheld).held hheld')
    exact fun s _ => .of_quiet (define_held ..)

/-- A constant is examined alike. It keeps its mark to the end. -/
theorem examineConstant_agree {demand demand' : String → Check β Ty}
    (h : ∀ x, Agree ctx g n (demand x) (demand' x)) (c : Source.Constant)
    (hs : Roomy ctx g n (s.mark c.name.text)) :
    AgreeAt s (examineConstant ctx demand c) (examineConstant ctx demand' c) := by
  have hc := congruence_agree ctx g n
  have hd := corresponds_agree h
  unfold examineConstant
  refine .bind (.of_quiet (mark_held c.name.text)) fun _ t ht _ => ?_
  cases ht
  refine .bind (agree_ascribed _ (hc.infer hd c.ascription _) _ hs) fun ty t _ hheld => ?_
  have ht := hs.held hheld
  refine .bind (.of_quiet (send_held ..)) fun _ u _ hheld => ?_
  have hu := ht.held hheld
  refine .bind (.inScope ?_) fun body v _ hheld => ?_
  · exact hc.checkBlock hd c.body _ _ (hu.held (.of_same rfl rfl rfl))
  have hv := hu.held hheld
  refine .bind (hc.expect _ _ _ _ v hv) fun _ w _ _ => ?_
  refine .bind (.of_quiet (Held.of_same rfl rfl rfl)) fun value x _ _ => ?_
  cases value with
  | some value =>
    refine .bind (.of_quiet (define_held ..)) fun _ y _ _ => ?_
    refine .bind (.of_quiet (Held.of_same rfl rfl rfl)) fun _ z _ _ => ?_
    exact .of_quiet (Held.publish ..)
  | none => exact .bind (.of_quiet (define_held ..)) fun _ y _ _ => .of_quiet (Held.publish ..)

/-- A built-in asks for nothing, so nothing has to agree but the step with
itself. -/
theorem examineBuiltin_held (b : Builtin) : EndsIn (Held s) (examineBuiltin ctx b s) := by
  unfold examineBuiltin
  refine .bind (send_held ..) fun _ t => .bind (define_held ..) fun _ u => ?_
  refine .bind (Held.publish ..) fun _ v => ?_
  cases b.alias? with
  | some ty => exact Held.of_same rfl rfl rfl
  | none => exact Held.refl v

/-- **Examining a declaration agrees** if types are asked for in ways that
do. -/
theorem examine_agree {demand demand' : String → Check β Ty}
    (h : ∀ x, Agree ctx g n (demand x) (demand' x)) (d : Declaration)
    (hs : Roomy ctx g n (s.mark d.name)) :
    AgreeAt s (examine ctx demand d) (examine ctx demand' d) := by
  rcases d with b | f | c
  · exact .of_quiet (examineBuiltin_held b)
  · exact examineFunction_agree h f hs
  · exact examineConstant_agree h c hs

/-! ## On demand -/

/-- To settle a declaration is to examine it in a place of its own, and nothing
else is asked of the examination. -/
theorem settle_eq {name : String} {step step' : Check β Unit}
    (h : step (s.enter name) = step' (s.enter name)) :
    settle name step s = settle name step' s := by
  unfold settle atTopLevel
  rw [h]

/-- **A declaration that is not marked is settled alike** if it is examined
alike. That it is not marked is needed for the way back, where its mark is
cleared: it must not be a mark that was there before. -/
theorem settle_agree {name : String} {step step' : Check β Unit} (hnew : ¬Marked s name)
    (h : AgreeAt (s.enter name) step step') : AgreeAt s (settle name step) (settle name step') := by
  refine ⟨settle_eq h.eq, ?_⟩
  by_cases hsettled : name ∈ s.defined ∨ name ∈ s.failed
  · rw [settle_of_settled hsettled]
    exact Held.refl s
  rw [settle_of_new hsettled]
  refine h.held.closing fun t ht failed => ⟨fun x hx => ?_, congrArg List.tail ht.active⟩
  -- nothing loses its mark but the declaration itself, which had none
  have hne : x ≠ name := by
    rintro rfl
    exact hnew hx
  exact (ht.marked x hx).imp_left (List.mem_erase_of_ne hne).mpr

/-- To answer for a declaration changes nothing. -/
theorem answer_held (x : String) : EndsIn (Held s) (answer x s) := by
  cases hnew : s.types.lookup x with
  | some ty =>
    rw [answer_of_published hnew]
    exact Held.refl s
  | none =>
    by_cases hfailed : x ∈ s.failed
    · rw [answer_of_failed hnew hfailed]
      exact Held.refl s
    · rw [answer_of_missing hnew hfailed]
      exact Held.refl s

/-- **Asking for types agrees** if the ways to settle what is not marked do. -/
theorem demandWith_agree {analyze analyze' : Declaration → Check β Unit}
    (h : ∀ s, Roomy ctx g n s → ∀ d ∈ ctx.declarations.entries, ¬Marked s d.name →
      AgreeAt s (analyze d) (analyze' d)) (x : String) :
    Agree ctx g n (demandWith ctx analyze x) (demandWith ctx analyze' x) := by
  intro s hs
  have hquiet {r : EStateM.Result Halt (State β) Ty} (hx : demandWith ctx analyze x s = r)
      (hx' : demandWith ctx analyze' x s = r) (hr : EndsIn (Held s) r) :
      AgreeAt s (demandWith ctx analyze x) (demandWith ctx analyze' x) :=
    ⟨hx.trans hx'.symm, hx ▸ hr⟩
  cases asked ctx s x with
  | published hty =>
    exact hquiet (demandWith_of_published hty) (demandWith_of_published hty) (Held.refl s)
  | failed hnew hfailed =>
    exact hquiet (demandWith_of_failed hnew hfailed) (demandWith_of_failed hnew hfailed)
      (Held.refl s)
  | inProgress hnew hfailed hprogress =>
    exact hquiet (demandWith_of_inProgress hnew hfailed hprogress)
      (demandWith_of_inProgress hnew hfailed hprogress) (Held.refl s)
  | undeclared hnew hfailed hprogress hfind =>
    exact hquiet (demandWith_of_undeclared hnew hfailed hprogress hfind)
      (demandWith_of_undeclared hnew hfailed hprogress hfind) (Held.refl s)
  | fresh hd hnew hfailed hprogress =>
    rename_i d
    have hmark : ¬Marked s d.name := by simp [Marked, hnew, hprogress]
    refine AgreeAt.after (.bind (h s hs d hd hmark) fun _ t _ _ => .of_quiet (answer_held d.name))
      (.refl s) (demandWith_of_fresh hnew hfailed hprogress hd)
      (demandWith_of_fresh hnew hfailed hprogress hd)

/-- **A way to settle declarations goes on like the analysis**, one level after
the other. If `g` holds then nothing is said of what it does with a declaration
that is under analysis already. -/
def Unfolds (ctx : Context β) (g : Prop) (analyze : Nat → Declaration → Check β Unit) : Prop :=
  ∀ n, ∀ d ∈ ctx.declarations.entries, ∃ step, analyze (n + 1) d = settle d.name step ∧
    ∀ s, (g → d.name ∉ s.active.tail) →
      step s = examine ctx (demandWith ctx (analyze n)) d s

/-- The examination of a declaration agrees, from the moment it begins. -/
theorem Unfolds.settle_agree {A B : Nat → Declaration → Check β Unit} (hA : Unfolds ctx g A)
    (hB : Unfolds ctx g B) {d : Declaration} (hd : d ∈ ctx.declarations.entries)
    (hactive : g → d.name ∉ s.active)
    (h : AgreeAt (s.enter d.name) (examine ctx (demandWith ctx (A n)) d)
      (examine ctx (demandWith ctx (B n)) d)) :
    A (n + 1) d s = B (n + 1) d s ∧
      (¬Marked s d.name → AgreeAt s (A (n + 1) d) (B (n + 1) d)) := by
  obtain ⟨step, hstep, hexamine⟩ := hA n d hd
  obtain ⟨step', hstep', hexamine'⟩ := hB n d hd
  have hsteps : AgreeAt (s.enter d.name) step step' :=
    h.after (.refl _) (hexamine _ hactive) (hexamine' _ hactive)
  rw [hstep, hstep']
  exact ⟨settle_eq hsteps.eq, fun hnew => Analysis.settle_agree hnew hsteps⟩

/-- **Two ways to settle declarations agree** where there is room for all that
are left to ask for. The induction is on the room: whoever is examined has taken
some. -/
theorem Unfolds.agree {A B : Nat → Declaration → Check β Unit} (hA : Unfolds ctx g A)
    (hB : Unfolds ctx g B) (n : Nat) (s : State β) (hs : Roomy ctx g n s) (d : Declaration)
    (hd : d ∈ ctx.declarations.entries) (hnew : ¬Marked s d.name) : AgreeAt s (A n d) (B n d) := by
  induction n generalizing s d with
  | zero =>
    have hlt := room_mark_lt (List.mem_map.mpr ⟨d, hd, rfl⟩) hnew
    exact absurd hs.room (Nat.not_le.mpr (Nat.zero_lt_of_lt hlt))
  | succ n ih =>
    have hlt := room_mark_lt (List.mem_map.mpr ⟨d, hd, rfl⟩) hnew
    have hactive (hg : g) : d.name ∉ s.active := fun h => hnew (hs.marked hg _ h)
    have hroomy : Roomy ctx g n ((s.enter d.name).mark d.name) := by
      refine ⟨Nat.le_of_lt_succ (Nat.lt_of_lt_of_le hlt hs.room), fun hg x hx => ?_⟩
      obtain rfl | hx := List.mem_cons.mp hx
      · exact marked_mark.mpr (.inl rfl)
      · exact marked_mark.mpr (.inr (hs.marked hg x hx))
    have hdemand := demandWith_agree ih
    exact (hA.settle_agree hB hd hactive (examine_agree hdemand d hroomy)).2 hnew

/-!
## The analysis

The analysis that runs counts levels, from as many as there are declarations. It
is one way to settle declarations that goes on like this, and there is another
one for every number to begin with. By `Unfolds.agree` all of them are the same,
so the number is no part of what the analysis does.
-/

theorem unfolds_analyzeWithin (ctx : Context β) (g : Prop) : Unfolds ctx g (analyzeWithin ctx) :=
  fun _ _ _ => ⟨_, rfl, fun _ _ => rfl⟩

/-- **A way to settle declarations that goes on like the analysis is the
analysis**, if nothing is under analysis before. -/
theorem Unfolds.apply_eq {A : Nat → Declaration → Check β Unit} (hA : Unfolds ctx g A)
    {d : Declaration} (hd : d ∈ ctx.declarations.entries) (hactive : g → s.active = []) :
    A ctx.declarations.count d s = analyze ctx d s := by
  have hB := unfolds_analyzeWithin ctx g
  have hlt : room ctx ((s.enter d.name).mark d.name) < ctx.declarations.count :=
    room_mark_lt_count (List.mem_map.mpr ⟨d, hd, rfl⟩)
  obtain ⟨n, hn⟩ := Nat.exists_eq_succ_of_ne_zero (Nat.ne_zero_of_lt hlt)
  rw [analyze, hn]
  rw [hn] at hlt
  have hroomy : Roomy ctx g n ((s.enter d.name).mark d.name) := by
    refine ⟨Nat.le_of_lt_succ hlt, fun hg x hx => marked_mark.mpr (.inl ?_)⟩
    obtain rfl | hx := List.mem_cons.mp hx
    · rfl
    · rw [hactive hg] at hx
      cases hx
  have hdemand := demandWith_agree (hA.agree hB n)
  refine (hA.settle_agree hB hd (fun hg => ?_) (examine_agree hdemand d hroomy)).1
  rw [hactive hg]
  exact List.not_mem_nil

/-- **The analysis goes on like itself**, with no level to count. -/
theorem analyze_eq {d : Declaration} (hd : d ∈ ctx.declarations.entries) :
    analyze ctx d = settle d.name (examine ctx (demand ctx) d) := by
  have hdeeper : Unfolds ctx False fun n => analyzeWithin ctx (n + 1) := fun n =>
    unfolds_analyzeWithin ctx False (n + 1)
  exact funext fun s => (hdeeper.apply_eq hd False.elim).symm

/-- **Nothing else does.** -/
theorem eq_analyze {A : Declaration → Check β Unit}
    (hA : ∀ d ∈ ctx.declarations.entries, A d = settle d.name (examine ctx (demandWith ctx A) d))
    {d : Declaration} (hd : d ∈ ctx.declarations.entries) : A d = analyze ctx d := by
  have hunfolds : Unfolds ctx False fun _ => A := fun _ d hd => ⟨_, hA d hd, fun _ _ => rfl⟩
  exact funext fun s => hunfolds.apply_eq hd False.elim

/-- **An analysis that watches itself**: with room for `n` declarations under
analysis, it leaves a declaration to `deep` if there is no room for it, and to
`again` if it is under analysis already. -/
def analyzeWatched (ctx : Context β) (deep again : Declaration → Check β Unit) :
    Nat → Declaration → Check β Unit
  | 0, d => deep d
  | n + 1, d => settle d.name fun s =>
    if d.name ∈ s.active.tail then again d s
    else examine ctx (demandWith ctx (analyzeWatched ctx deep again n)) d s

/-- **A watched analysis is an analysis** if nothing is under analysis before:
`deep` and `again` do not come up. -/
theorem analyzeWatched_eq (deep again : Declaration → Check β Unit) {d : Declaration}
    (hd : d ∈ ctx.declarations.entries) (hactive : s.active = []) :
    analyzeWatched ctx deep again ctx.declarations.count d s = analyze ctx d s := by
  have hunfolds : Unfolds ctx True (analyzeWatched ctx deep again) := fun _ _ _ =>
    ⟨_, rfl, fun _ hs => if_neg (hs trivial)⟩
  exact hunfolds.apply_eq hd fun _ => hactive

end Stagewise.Analysis
