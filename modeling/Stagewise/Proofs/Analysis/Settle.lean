import Mathlib.Data.List.Perm.Subperm
import Stagewise.Proofs.Analysis.Trees

/-!
# Settling a declaration

Asking for the type of a declaration may settle it first, which asks for the
types of others, and so on. Declarations under analysis are distinct, so this
ends: with room for as many as are not under analysis, `analyzeWithin` never
runs out of room. That it does what it should is an induction on that room
(`analyzeWithin_settles`), in which a declaration is examined with the ability
to ask for types one level below (`Answers`).

Examining a declaration `Closes` it: a course of acts gets from its being
entered to its being left, and the others that are under analysis stay where
they are.
-/

namespace Stagewise.Analysis

open Source (Invocation)

variable {β α : Type} {ctx : Context β} {stack rest : List String} {s t u : State β} {x : String}

/-! ## Expansions -/

/-- **Text is expanded** by one act, be it that the backend is asked or that the
answer is there. -/
theorem expansion_follows (hs : Checking ctx stack s) {binding : Binding} {text : String}
    (due : Due ctx s .evaluate (.expansion binding) text) :
    Follows ctx stack stack s (fun _ _ => True) (expansion ctx binding text s) := by
  unfold expansion
  refine .get_bind ?_
  cases s.cache.get? text with
  | some d => exact ⟨.reuse hs, trivial⟩
  | none =>
    obtain ⟨d, hd, haccepted, hsend⟩ | ⟨f, t, hanswer, hsend, hleaves⟩ :=
      send_cases s .evaluate (.expansion binding) text (ctx.backend.evaluate text) fun _ => rfl
    · simp only [bind_of_ok hsend]
      exact ⟨⟨.single (.expand due haccepted hd), fun _ _ _ hp => hp.evaluate due _ _,
        hs.active⟩,
        trivial⟩
    · simp only [bind_of_error hsend]
      exact ⟨s, .refl, .refused due hanswer hleaves⟩

/-- **Text can be expanded** where types can be asked for. -/
theorem expand_expands {demand : String → Check β Ty} (h : Answers ctx stack demand) :
    Expands ctx stack (expand ctx demand) := by
  intro s span m hint hs
  unfold expand
  refine .bind hs (typeOf_follows h hs m.expander) ?_
  rintro ⟨binding, ty⟩ t - ht hbinding
  refine .bind ht (.expect ht) ?_
  rintro - t - ht ⟨rfl, rfl⟩
  -- an expander that is not defined yet cannot run
  suffices hrun : ∀ _ : Due ctx t .evaluate (.expansion binding) (expansionText m (hint.getD .nil)),
      Follows ctx stack stack t Typed
        ((expansion ctx binding (expansionText m (hint.getD .nil)) >>= _) t) by
    cases binding with
    | lexical l => exact hrun (.expand fun x hx => by cases hx)
    | global x =>
      obtain ⟨rfl, hknown⟩ := hbinding
      refine .get_bind ?_
      by_cases hdefined : m.expander.text ∈ t.defined
      · simp only [hdefined, not_true_eq_false, ↓reduceIte]
        exact hrun (.expand fun x hx => by cases hx; exact ⟨rfl, hknown, hdefined⟩)
      · simp only [hdefined, not_false_eq_true, ↓reduceIte]
        exact ⟨t, .refl, .early hknown hdefined (.refl t)⟩
  intro due
  refine .bind ht (expansion_follows ht due) ?_
  intro d u _ hu _
  cases Expansion.decode [hint.getD .nil] span d with
  | error cause => exact .report hu _
  | ok result =>
    obtain ⟨message, e⟩ := result
    refine .reportIf hu fun _ => ?_
    exact infer_follows ⟨h, fun _ _ m => nomatch m⟩ hu e hint

/-! ## One declaration -/

/-- **A step closes a declaration**: if it succeeds then all that is left to do
is to leave it, and it is defined. Of those under analysis, the others stay
where they are. -/
def Closes (ctx : Context β) (x : String) (rest : List String) (s : State β) :
    EStateM.Result Halt (State β) Unit → Prop
  | .ok _ t => Detour ctx rest rest s (t.leave x) ∧ x ∈ t.defined
  | .error .diagnostics t => ∃ u, Detour ctx rest (x :: rest) s u ∧ Refusal u t
  | .error (.fatal f) t => ∃ u, Course ctx s u ∧ Crash ctx u f t

/-- What is further down on the stack is another declaration. -/
theorem Checking.ne_of_mem (hs : Checking ctx (x :: rest) s) {y : String} (hy : y ∈ rest) :
    y ≠ x := by
  have hnodup := hs.book.active
  rw [hs.active] at hnodup
  rintro rfl
  exact (List.nodup_cons.mp hnodup).1 hy

/-- **A declaration is declared**, unless the backend refuses that. A function
publishes its type along with it. -/
theorem declare_cases {d : Declaration} (entry : d ∈ ctx.declarations.entries)
    (hs : Checking ctx (d.name :: rest) s) (phase : Standing ctx s d.name .begun)
    {subject : Subject} {text : String} (about : subject.declaration? = some d.name)
    (mentions : subject.mentions = []) (reads : subject.Reads .declare text) {ty : Option Ty}
    (publishes : ty.isSome = d.isFunction) (hu : u =
      { s with
        types := (ty.map (d.name, ·)).toList ++ s.types
        inProgress := if d.isFunction then s.inProgress.erase d.name else s.inProgress }) :
    (∃ t, declare ctx subject text u = .ok () t ∧ Detour ctx rest (d.name :: rest) s t ∧
      Standing ctx t d.name .announced) ∨
    ∃ f t, declare ctx subject text u = .error (.fatal f) t ∧ Crash ctx s f t := by
  have top : s.active.head? = some d.name := by rw [hs.active, List.head?_cons]
  have due : Due ctx s .declare subject text := .declare top about phase mentions reads
  subst hu
  obtain ⟨a, ha, haccepted, hsend⟩ | ⟨f, t, hanswer, hsend, hleaves⟩ := send_cases
    { s with
      types := (ty.map (d.name, ·)).toList ++ s.types
      inProgress := if d.isFunction then s.inProgress.erase d.name else s.inProgress }
    .declare subject text (ctx.backend.declare text) fun _ => rfl
  · have hact : Act ctx s _ := .declare entry about due publishes haccepted
    refine .inl ⟨_, hsend, ⟨.single hact, fun y hy p hp => ?_, hs.active⟩, ?_⟩
    · exact hp.declare_of_ne (hs.ne_of_mem hy) about ty _ _
    · exact phase.declare entry hs.book.inProgress about publishes _
  · exact .inr ⟨_, t, hsend,
      .refused due hanswer ⟨hleaves.1, hleaves.2, hleaves.3, hleaves.4⟩⟩

/-- What counts as defined is not defined again. This is an internal error, and
the backend hears nothing of it. -/
theorem define_of_mem (ctx : Context β) (h : x ∈ s.defined) (subject : Subject) (text : String) :
    define ctx x subject text s = .error (.fatal (.internal (.alreadyDefined x))) s := by
  unfold define
  rw [get_bind_apply, if_pos h]
  rfl

/-- Everything else is, and counts as defined from now on, before the backend
has answered. -/
theorem define_of_not_mem (ctx : Context β) (hnew : x ∉ s.defined) (subject : Subject)
    (text : String) :
    define ctx x subject text s = send .define subject text (ctx.backend.define text)
      { s with defined := s.defined ++ [x] } := by
  unfold define
  rw [get_bind_apply, if_neg hnew]
  rfl

/-- What is defined was not defined before, and nothing else is known of it
afterwards. -/
theorem of_define {subject : Subject} {text : String} (h : define ctx x subject text s = .ok () t) :
    x ∉ s.defined ∧ x ∈ t.defined ∧ t.types = s.types ∧ t.values = s.values := by
  by_cases hdefined : x ∈ s.defined
  · rw [define_of_mem ctx hdefined] at h
    cases h
  · rw [define_of_not_mem ctx hdefined] at h
    unfold send at h
    split at h
    · cases h
      exact ⟨hdefined, List.mem_append_right _ List.mem_cons_self, rfl, rfl⟩
    · cases h

namespace Closes

/-- To close a declaration after a detour is to close it. -/
theorem after {r : EStateM.Result Halt (State β) Unit} (hd : Detour ctx rest (x :: rest) s t)
    (h : Closes ctx x rest t r) : Closes ctx x rest s r := by
  match r, h with
  | .ok a u, h => exact ⟨hd.trans h.1, h.2⟩
  | .error .diagnostics w, ⟨u, hu, hw⟩ => exact ⟨u, hd.trans hu, hw⟩
  | .error (.fatal f) w, ⟨u, hu, hw⟩ => exact ⟨u, hd.course.trans hu, hw⟩

/-- **Something is done inside the declaration before it is closed.** Whatever
is analyzed for that leaves the declaration itself where it is. -/
theorem bind (hs : Checking ctx (x :: rest) s) {R : State β → α → Prop} {step : Check β α}
    {next : α → Check β Unit} (h : Follows ctx (x :: rest) (x :: rest) s R (step s))
    (hnext : ∀ a t, Detour ctx (x :: rest) (x :: rest) s t → Checking ctx (x :: rest) t → R t a →
      Closes ctx x rest t (next a t)) :
    Closes ctx x rest s ((step >>= next) s) := by
  have hsub : rest ⊆ x :: rest := List.subset_cons_self x rest
  show Closes ctx x rest s (EStateM.bind step next s)
  unfold EStateM.bind
  match step s, h with
  | .ok a t, h => exact (hnext a t h.1 (h.1.checking hs.book) h.2).after (h.1.mono hsub)
  | .error .diagnostics w, ⟨u, hu, hw⟩ => exact ⟨u, hu.mono hsub, hw⟩
  | .error (.fatal f) w, h => exact h

/-- A test that has to come out false, and otherwise refuses the declaration. -/
theorem reportIf (hs : Checking ctx (x :: rest) s) {c : Prop} [Decidable c] {d : Diagnostic}
    {next : Unit → Check β Unit} (h : ¬c → Closes ctx x rest s (next () s)) :
    Closes ctx x rest s ((if c then report d >>= next else next ()) s) := by
  split
  · exact ⟨s, .refl hs, .reported d⟩
  · exact h ‹_›

variable {d : Declaration} (entry : d ∈ ctx.declarations.entries)

include entry

/-- A declaration is declared, and a function publishes its type at that. -/
theorem declare (hs : Checking ctx (d.name :: rest) s) (phase : Standing ctx s d.name .begun)
    {subject : Subject} {text : String} (about : subject.declaration? = some d.name)
    (mentions : subject.mentions = []) (reads : subject.Reads .declare text) (ty : Option Ty)
    (publishes : ty.isSome = d.isFunction) {next : Unit → Check β Unit}
    (hnext : ∀ t, Checking ctx (d.name :: rest) t → Standing ctx t d.name .announced →
      Closes ctx d.name rest t (next () t)) :
    Closes ctx d.name rest s ((declare ctx subject text >>= next)
      { s with
        types := (ty.map (d.name, ·)).toList ++ s.types
        inProgress := if d.isFunction then s.inProgress.erase d.name else s.inProgress }) := by
  obtain ⟨t, ht, hdeclare, hannounced⟩ | ⟨f, t, ht, hcrash⟩ :=
    declare_cases entry hs phase about mentions reads publishes rfl
  · rw [bind_of_ok ht]
    exact (hnext t (hdeclare.checking hs.book) hannounced).after hdeclare
  · rw [bind_of_error ht]
    exact ⟨s, .refl, hcrash⟩

/-- A declaration is defined, and what is learned by that is published. -/
theorem define (hs : Checking ctx (d.name :: rest) s) (phase : Standing ctx s d.name .announced)
    (subject : Subject) {text : String} (about : subject.declaration? = some d.name)
    (known : ∀ y ∈ subject.mentions, ∃ ty, Knows s y ty) (reads : subject.Reads .define text)
    {ty : Option Ty} {v : Option Value} (learns : Learns s d ty v) {step : Check β Unit}
    (hok : ∀ t, define ctx d.name subject text s = .ok () t → step s = .ok ()
      { t with
        types := (ty.map (d.name, ·)).toList ++ t.types
        values := (v.map (d.name, ·)).toList ++ t.values })
    (herror : ∀ h t, define ctx d.name subject text s = .error h t → step s = .error h t) :
    Closes ctx d.name rest s (step s) := by
  have top : s.active.head? = some d.name := by rw [hs.active, List.head?_cons]
  have due : Due ctx s .define subject text := .define top about phase known reads
  have hnew : d.name ∉ s.defined := by simp [phase.defined]
  have hdefine := define_of_not_mem ctx hnew subject text
  obtain ⟨a, ha, haccepted, hsend⟩ | ⟨f, t, hanswer, hsend, hleaves⟩ := send_cases
    { s with defined := s.defined ++ [d.name] } .define subject text (ctx.backend.define text)
    fun _ => rfl
  · have hact : Act ctx s _ := .define entry about due learns haccepted
    rw [hok _ (hdefine.trans hsend)]
    refine ⟨⟨.single hact, fun y hy p hp => ?_, ?_⟩, List.mem_append_right _ List.mem_cons_self⟩
    · exact hp.define_of_ne (hs.ne_of_mem hy) top about ty _
    · exact congrArg List.tail hs.active
  · rw [herror _ _ (hdefine.trans hsend)]
    exact ⟨s, .refl, .refused due hanswer ⟨hleaves.1, hleaves.2, hleaves.3, hleaves.4⟩⟩

end Closes

section

variable {demand : String → Check β Ty}

/-- The body of a constant is folded by one act. -/
theorem foldedBlock_follows (hs : Checking ctx stack s) (b : Term.Block) :
    Follows ctx stack stack s (fun t v => ∀ x ∈ v, Fold.block t.values b = some x)
      (foldedBlock ctx b s) := by
  refine ⟨.fold hs, fun x hx => ?_⟩
  exact (Option.ite_none_right_eq_some.mp hx).2

/-- A built-in is declared and defined, and that is all. -/
theorem examineBuiltin_closes {b : Builtin} (entry : .builtin b ∈ ctx.declarations.entries)
    (hs : Checking ctx (b.name :: rest) s) (phase : Standing ctx s b.name .begun) :
    Closes ctx b.name rest s (examineBuiltin ctx b s) := by
  unfold examineBuiltin
  have reads : (Subject.builtin b).Reads .declare (Target.Item.declareBuiltin b).text := rfl
  refine .declare entry hs phase rfl rfl reads none rfl ?_
  intro t ht phase
  have reads : (Subject.builtin b).Reads .define (Target.Item.defineBuiltin b).text := rfl
  refine .define entry ht phase (.builtin b) rfl (fun y hy => by cases hy) reads (.builtin b) ?_ ?_
  · intro u hu
    refine (bind_of_ok hu _).trans ?_
    cases b.alias? <;> rfl
  · intro h u hu
    exact bind_of_error hu _

/-- **A function is closed by its examination.** Its parameters and its result
are ascribed first, then it is declared and has its type published, and then its
body is checked and it is defined. On the way it goes through all the phases. -/
theorem examineFunction_closes {f : Source.Function}
    (hdemand : Answers ctx (f.name.text :: rest) demand)
    (entry : .source (.function f) ∈ ctx.declarations.entries)
    (hs : Checking ctx (f.name.text :: rest) s) (phase : Standing ctx s f.name.text .begun)
    (hmark : mark f.name.text t = .ok () s) :
    Closes ctx f.name.text rest s (examineFunction ctx demand f t) := by
  have hservices : Services ctx _ demand (expand ctx demand) := ⟨hdemand, expand_expands hdemand⟩
  unfold examineFunction
  rw [bind_of_ok hmark]
  refine .bind hs (inferParams_follows hservices hs f.params) ?_
  intro params t hst ht _
  have phase := hst.kept _ List.mem_cons_self _ phase
  refine .bind ht (ascribed_follows ht fun u hu => infer_follows hservices hu f.result _) ?_
  intro result u htu hu _
  have phase := htu.kept _ List.mem_cons_self _ phase
  refine .declare entry hu phase rfl rfl ?_ (some _) rfl ?_
  · exact .inl ⟨_, rfl, rfl⟩
  intro v hv phase
  refine .bind hv (R := fun t (b : Term.Block) => b.WellTyped (Knows t))
    (.inScope hv (fun _ _ _ h => h) fun w hw _ => ?_) ?_
  · refine .bind hw (.introduceParams hw params) fun _ x _ hx _ => ?_
    exact checkBlock_follows hservices hx f.body _
  intro body w hvw hw hbody
  have phase := hvw.kept _ List.mem_cons_self _ phase
  refine .bind hw (.expect hw) ?_
  rintro - w - hw ⟨rfl, hty⟩
  refine .reportIf hw fun _ => ?_
  refine .define entry hw phase (.body f.name.text body) rfl
    (Term.Block.WellTyped.of_mem_globals body hbody) ?_ (.function f) (fun _ h => h)
    (fun _ _ h => h)
  exact .inl ⟨_, rfl, rfl⟩

/-- **A constant is closed by its examination**, in the same order. Its type is
published with its definition. -/
theorem examineConstant_closes {c : Source.Constant}
    (hdemand : Answers ctx (c.name.text :: rest) demand)
    (entry : .source (.constant c) ∈ ctx.declarations.entries)
    (hs : Checking ctx (c.name.text :: rest) s) (phase : Standing ctx s c.name.text .begun)
    (hmark : mark c.name.text t = .ok () s) :
    Closes ctx c.name.text rest s (examineConstant ctx demand c t) := by
  have hservices : Services ctx _ demand (expand ctx demand) := ⟨hdemand, expand_expands hdemand⟩
  unfold examineConstant
  rw [bind_of_ok hmark]
  refine .bind hs (ascribed_follows hs fun u hu => infer_follows hservices hu c.ascription _) ?_
  intro ty t hst ht _
  have phase := hst.kept _ List.mem_cons_self _ phase
  refine .declare entry ht phase rfl rfl ?_ none rfl ?_
  · exact .inr ⟨_, rfl⟩
  intro u hu phase
  refine .bind hu (R := fun t (b : Term.Block) => b.WellTyped (Knows t))
    (.inScope hu (fun _ _ _ h => h) fun v hv _ => checkBlock_follows hservices hv c.body _) ?_
  intro body v huv hv hbody
  have phase := huv.kept _ List.mem_cons_self _ phase
  refine .bind hv (.expect hv) ?_
  rintro - v - hv ⟨rfl, rfl⟩
  -- whether the body folds decides on what is learned, and not on how the constant is defined
  refine .bind hv (foldedBlock_follows hv body) ?_
  intro value w hvw hw hvalue
  have phase := hvw.kept _ List.mem_cons_self _ phase
  have hbody := hvw.wellTypedBlock hv hbody
  cases value with
  | some value =>
    refine .define entry hw phase (.literal c.name.text value) rfl (fun y hy => by cases hy) ?_
      (.folded c hbody (hvalue value rfl)) (fun x hx => ?_) (fun h x hx => bind_of_error hx _)
    · exact ⟨_, rfl⟩
    · exact bind_of_ok hx _
  | none =>
    refine .define entry hw phase (.body c.name.text body) rfl
      (Term.Block.WellTyped.of_mem_globals body hbody) ?_ (.computed c body.ty)
      (fun x hx => ?_) (fun h x hx => bind_of_error hx _)
    · exact .inr ⟨_, rfl⟩
    · exact bind_of_ok hx _

/-- **A declaration that was entered is closed** by being examined. Its own
mark, which is part of being entered, is set by the examination itself. -/
theorem examine_closes {d : Declaration} (entry : d ∈ ctx.declarations.entries)
    (hdemand : d.isBuiltin = false → Answers ctx (d.name :: rest) demand)
    (hs : Checking ctx (d.name :: rest) s) (phase : Standing ctx s d.name .begun)
    (hnew : d.name ∉ t.inProgress)
    (hmarked : s =
      { t with inProgress := if d.isBuiltin then t.inProgress else d.name :: t.inProgress }) :
    Closes ctx d.name rest s (examine ctx demand d t) := by
  have hmark (name : String) (h : name ∉ t.inProgress) :
      mark name t = .ok () { t with inProgress := name :: t.inProgress } := by
    rw [← List.insert_of_not_mem h]
    rfl
  match d with
  | .builtin b =>
    obtain rfl : s = t := hmarked
    exact examineBuiltin_closes entry hs phase
  | .source (.function f) =>
    exact examineFunction_closes (hdemand rfl) entry hs phase (hmarked ▸ hmark _ hnew)
  | .source (.constant c) =>
    exact examineConstant_closes (hdemand rfl) entry hs phase (hmarked ▸ hmark _ hnew)

end

/-!
## On demand

To ask for a type is to find it published, or to settle the declaration first,
or to fail. The last is allowed: what was refused has no type, and what is being
computed is on the stack, and by the books these are all cases that there are
besides. So what is left to show is that an untouched declaration can be
settled, with one level less to go. There is always a level left, since the
declarations on the stack are different and are all of the module.
-/

/-- **A step settles a declaration**: it is defined or refused in the end, and
nothing else happens to those under analysis. That it is refused is no reason to
halt. What was looked up when the step began is not forgotten. -/
def Settles (ctx : Context β) (stack : List String) (s : State β) (x : String)
    (resolutions : List Resolution) : EStateM.Result Halt (State β) Unit → Prop
  | .ok _ t => Detour ctx stack stack s t ∧ (x ∈ t.defined ∨ x ∈ t.failed) ∧
    resolutions <+: t.resolutions
  | .error .diagnostics _ => False
  | .error (.fatal f) t => ∃ u, Course ctx s u ∧ Crash ctx u f t

/-- A declaration that is refused is left, and what is below it on the stack is
on top. -/
theorem Detour.refuse (hs : Checking ctx (x :: stack) s) (h : Refusal s t) :
    Detour ctx stack stack s { t.leave x with failed := t.failed ++ [x] } := by
  have top : s.active.head? = some x := by rw [hs.active, List.head?_cons]
  refine ⟨.single (.refuse top h), fun y hy p hp => hp.refuse_of_ne (hs.ne_of_mem hy) top h, ?_⟩
  cases h <;> exact congrArg List.tail hs.active

/-- **A declaration is entered**, and its examination begins at the top
level. -/
theorem Detour.enter {d : Declaration} (hs : Checking ctx stack s) (summons : Summons s d.name t)
    (entry : d ∈ ctx.declarations.entries) (phase : Standing ctx s d.name .untouched) :
    Detour ctx stack (d.name :: stack) s
      { t with
        active := d.name :: t.active
        inProgress := if d.isBuiltin then t.inProgress else d.name :: t.inProgress
        scopes := t.scopes.isolated
        inAscription := false } := by
  have hactive : t.active = stack := by cases summons <;> exact hs.active
  have hout : d.name ∉ stack := by simp [← hs.active, phase.active, Phase.isActive]
  have henter : Detour ctx stack (d.name :: stack) s
      { t with
        active := d.name :: t.active
        inProgress := if d.isBuiltin then t.inProgress else d.name :: t.inProgress } := by
    refine ⟨.single (.enter summons entry phase), fun y hy p hp => ?_, by rw [hactive]⟩
    have hne : y ≠ d.name := fun h => hout (h ▸ hy)
    exact (hp.summons summons).enter_of_ne hne _
  exact henter.trans
    (.move (henter.checking hs.book) false (hs.book.summons summons).scopes.isolated)

/-- **An untouched declaration is settled by an examination that closes it.** To
enter it is one act, and to leave it is part of the last one. If the examination
reports something then that is the end of the declaration and not of the
analysis. -/
theorem settle_settles {d : Declaration} {step : Check β Unit} (hs : Checking ctx stack s)
    (summons : Summons s d.name t) (entry : d ∈ ctx.declarations.entries)
    (phase : Standing ctx s d.name .untouched)
    (hstep : ∀ e u, Checking ctx (d.name :: stack) e → Standing ctx e d.name .begun →
      d.name ∉ u.inProgress →
      e = { u with inProgress := if d.isBuiltin then u.inProgress else d.name :: u.inProgress } →
      Closes ctx d.name stack e (step u)) :
    Settles ctx stack s d.name t.resolutions (settle d.name step t) := by
  have ht := hs.book.summons summons
  have hphase := phase.summons summons
  have hnew : ¬(d.name ∈ t.defined ∨ d.name ∈ t.failed) := by
    simp [hphase.defined, hphase.failed, Phase.isFailed]
  have hprogress : d.name ∉ t.inProgress := by simp [hphase.inProgress, Phase.isOpen]
  have henter := Detour.enter hs summons entry phase
  have henter' := (henter.checking hs.book).book
  have hcloses := hstep _
    { t with active := d.name :: t.active, scopes := t.scopes.isolated, inAscription := false }
    (henter.checking hs.book) ((hphase.enter entry).move _ _) hprogress rfl
  unfold settle atTopLevel
  rw [if_neg hnew]
  generalize step _ = result at hcloses ⊢
  rcases result with ⟨a, w⟩ | ⟨- | f, w⟩
  · obtain ⟨hw, hdefined⟩ := hcloses
    have hback := hw.trans (.move (hw.checking henter') t.inAscription ht.scopes)
    exact ⟨henter.trans hback, .inl hdefined, (Course.grows hback.course).resolutions⟩
  · obtain ⟨u, hu, hw⟩ := hcloses
    have hrefuse := hu.trans (Detour.refuse (hu.checking henter') hw)
    have hback := hrefuse.trans (.move (hrefuse.checking henter') t.inAscription ht.scopes)
    exact ⟨henter.trans hback, .inr (List.mem_append_right _ List.mem_cons_self),
      (Course.grows hback.course).resolutions⟩
  · obtain ⟨u, hu, hw⟩ := hcloses
    exact ⟨u, henter.course.trans hu, hw.of_same rfl rfl rfl rfl⟩

/-- **A stack on which types can be asked for**: of those under analysis none is
a built-in, since built-ins ask for nothing. -/
def Askable (ctx : Context β) (stack : List String) : Prop :=
  ∀ x ∈ stack, ctx.declarations.isBuiltin x = false

/-- A declaration about which nothing is known is untouched. -/
theorem standing_untouched (hs : Checking ctx stack s) (hstack : Askable ctx stack)
    (htype : s.types.lookup x = none) (hfailed : x ∉ s.failed) (hprogress : x ∉ s.inProgress) :
    Standing ctx s x .untouched := by
  obtain ⟨p, hp⟩ := hs.book.standing x
  have hpublished := hp.published
  rw [htype, Option.isSome_none] at hpublished
  cases p with
  | untouched => exact hp
  | begun =>
    have hbuiltin := hstack x (hs.active ▸ hp.active.mpr rfl)
    exact absurd (hp.inProgress.mpr (by rw [hbuiltin]; rfl)) hprogress
  | announced =>
    have hbuiltin := hstack x (hs.active ▸ hp.active.mpr rfl)
    have hfunction : ctx.declarations.isFunction x = false := hpublished.symm
    exact absurd (hp.inProgress.mpr (by rw [hbuiltin, hfunction]; rfl)) hprogress
  | settled => cases hpublished
  | dropped => exact absurd (hp.failed.mpr rfl) hfailed
  | abandoned => exact absurd (hp.failed.mpr rfl) hfailed

/-- What has no type is not defined. -/
theorem Book.not_mem_defined (h : Book ctx s) (hx : s.types.lookup x = none) : x ∉ s.defined := by
  intro hdefined
  obtain ⟨p, hp⟩ := h.standing x
  have hpublished := hp.published
  rw [hp.defined.mp hdefined, hx] at hpublished
  cases hpublished

/-- **The type of a declaration can be asked for**, if untouched declarations
can be settled. -/
theorem demandWith_answers {analyze : Declaration → Check β Unit} (hstack : Askable ctx stack)
    (hanalyze : ∀ s d, Checking ctx stack s → d ∈ ctx.declarations.entries →
      Standing ctx s d.name .untouched →
      Settles ctx stack s d.name (s.resolve d.name (.global d.name)).resolutions
        (analyze d (s.resolve d.name (.global d.name)))) :
    Answers ctx stack (demandWith ctx analyze) := by
  intro s x hs hx
  have hrefers : ∀ d ∈ s.active.head?, Refers (s.resolve x (.global x)).resolutions d x := by
    intro d hd
    rw [State.resolve, show s.active.head? = some d from hd]
    exact refers_append_global
  have hresolve (h : (s.types.lookup x).isSome = true ∨ x ∈ s.failed) :
      Detour ctx stack stack s (s.resolve x (.global x)) :=
    .resolve hs fun y hy => by cases hy; exact ⟨rfl, h⟩
  -- four ways to answer: published, failed before, reentrant, or not met before and analyzed now
  unfold demandWith
  refine .get_bind ?_
  cases hty : (s.resolve x (.global x)).types.lookup x with
  | some ty => exact ⟨hresolve (.inl (Option.isSome_of_eq_some hty)), hty, hrefers⟩
  | none =>
    by_cases hfailed : x ∈ (s.resolve x (.global x)).failed
    · simp only [hfailed, ↓reduceIte]
      exact ⟨_, hresolve (.inr hfailed), .inherited hrefers hfailed hty⟩
    by_cases hprogress : x ∈ (s.resolve x (.global x)).inProgress
    · simp only [hfailed, hprogress, ↓reduceIte]
      exact ⟨s, .refl, .reentrant hprogress ⟨(List.append_nil _).symm, rfl, rfl, rfl⟩⟩
    obtain ⟨d, hd, rfl⟩ := List.mem_map.mp hx
    have hsettles := hanalyze s d hs hd (standing_untouched hs hstack hty hfailed hprogress)
    simp only [hfailed, hprogress, ↓reduceIte, Declarations.find?_eq_some_iff.mpr ⟨hd, rfl⟩]
    show Follows ctx stack stack s _ (EStateM.bind (analyze d) _ _)
    unfold EStateM.bind
    generalize analyze d (s.resolve d.name (.global d.name)) = result at hsettles ⊢
    rcases result with ⟨⟨⟩, t⟩ | ⟨- | f, t⟩
    · obtain ⟨ht, hdone, hle⟩ := hsettles
      have hrefers : ∀ y ∈ t.active.head?, Refers t.resolutions y d.name := fun y hy =>
        (hrefers y (by rwa [ht.active, ← hs.active] at hy)).mono hle
      refine .get_bind ?_
      cases hty : t.types.lookup d.name with
      | some ty => exact ⟨ht, hty, hrefers⟩
      | none =>
        -- it was analyzed and has no type, so it has failed just now
        have hfailed := hdone.resolve_left ((ht.checking hs.book).book.not_mem_defined hty)
        simp only [hfailed, ↓reduceIte]
        exact ⟨t, ht, .inherited hrefers hfailed hty⟩
    · exact hsettles.elim
    · exact hsettles

/-- There is room for a declaration that is not under analysis. -/
theorem Checking.length_lt (hs : Checking ctx stack s) (hx : x ∈ ctx.declarations.names)
    (hout : x ∉ stack) : stack.length < ctx.declarations.count := by
  have hnodup : (x :: stack).Nodup := List.nodup_cons.mpr ⟨hout, hs.active ▸ hs.book.active⟩
  have hsub : x :: stack ⊆ ctx.declarations.names := by
    refine List.cons_subset.mpr ⟨hx, fun y hy => ?_⟩
    obtain ⟨p, hp⟩ := hs.book.standing y
    have hactive := hp.active.mp (hs.active ▸ hy)
    exact hp.declared (by rintro rfl; cases hactive)
  have hle := (List.subperm_of_subset hnodup hsub).length_le
  rwa [Declarations.names, List.length_map] at hle

/-- **Untouched declarations can be settled**, with room for all that are not
under analysis. -/
theorem analyzeWithin_settles (depth : Nat) {d : Declaration} (hs : Checking ctx stack s)
    (hstack : Askable ctx stack) (summons : Summons s d.name t)
    (entry : d ∈ ctx.declarations.entries) (phase : Standing ctx s d.name .untouched)
    (hdepth : ctx.declarations.count ≤ depth + stack.length) :
    Settles ctx stack s d.name t.resolutions (analyzeWithin ctx depth d t) := by
  have hout : d.name ∉ stack := by simp [← hs.active, phase.active, Phase.isActive]
  have hroom := hs.length_lt (List.mem_map.mpr ⟨d, entry, rfl⟩) hout
  induction depth generalizing stack s t d with
  | zero => omega
  | succ depth ih =>
    refine settle_settles hs summons entry phase fun e u he hbegun hnew hmarked => ?_
    refine examine_closes entry (fun hbuiltin => ?_) he hbegun hnew hmarked
    have hstack' : Askable ctx (d.name :: stack) := List.forall_mem_cons.mpr
      ⟨(Declarations.isBuiltin_name entry).trans hbuiltin, hstack⟩
    refine demandWith_answers hstack' fun s d' hs entry phase => ?_
    have hout : d'.name ∉ d.name :: stack := by simp [← hs.active, phase.active, Phase.isActive]
    refine ih hs hstack' .lookup entry phase ?_ hout
      (hs.length_lt (List.mem_map.mpr ⟨d', entry, rfl⟩) hout)
    rw [List.length_cons]
    omega

end Stagewise.Analysis
