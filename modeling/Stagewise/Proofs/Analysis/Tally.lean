import Stagewise.Proofs.Analysis.Lookups
import Stagewise.Proofs.Expansion.Names

/-!
# What declarations look up, and what they have evaluated

When a declaration was examined, it has looked up the names that are mentioned
in it: all of them if it is defined, and the first of them if it is not.
Declarations that are examined in between have done the same, and those that
were under analysis before have done nothing. This is shown for one declaration
after the other, by induction on the number of declarations there is room for,
like everything else about settling declarations on demand
(`analyzeWithin_keeps`).

It says nothing of declarations with text to expand, whose names are not known
before. Where their requests come from is known all the same: an expander is run
where it is invoked, and what it returns has nothing in it to be evaluated.
-/

namespace Stagewise.Analysis

open Source (Expr Item Invocation Place PlainParts freeNames)

variable {β α : Type} {ctx : Context β} {start s t u : State β} {c : Scopes} {item : Item}
  {rest stack us : List String} {p : Place} {demand : String → Check β Ty}

/-- **A declaration can rely on a step** for the types of others: it asks for
them as the analysis does at some depth, and gets back to what it was doing. -/
structure Serves (ctx : Context β) (start : State β) (stack : List String)
    (demand : String → Check β Ty) : Prop where
  inner : ∃ depth, demand = demandWith ctx (analyzeWithin ctx depth)
  answers : Answers ctx stack demand
  demands : Demands ctx demand
  minds : Minds ctx start stack demand

/-! ## Expansions -/

/-- Nothing is to be said of the lookups of a declaration with text to
expand. -/
theorem Tracks.of_not_plain {R : α → Prop} {r : EStateM.Result Halt (State β) α}
    (hplain : ¬PlainParts item.parts) (us : List String) (h : Tracks ctx start item rest us s R r) :
    Tracks ctx start item rest [] s R r := by
  have hnil {t : State β} {us : List String} (ht : Tracked ctx start item rest us s t) :
      Tracked ctx start item rest [] s t :=
    { ht with hand := fun hp => absurd hp hplain }
  cases r with
  | ok a t => exact ⟨hnil h.1, h.2⟩
  | error e t =>
    obtain ⟨us', -, ht⟩ := h
    exact ⟨[], List.prefix_rfl, hnil ht⟩

/-- A tree that came of an expansion has nothing in it to be evaluated or
expanded. -/
theorem tends_expanded (entry : .source item ∈ ctx.declarations.entries)
    (h : Serves ctx start (item.name.text :: rest) demand) :
    Tends ctx start item rest (fun q : Place × Source.Part Empty => ∃ n, q.2 = .name n) demand
      fun _ m _ => nomatch m where
  entry := entry
  services := ⟨h.answers, fun _ _ m => nomatch m⟩
  provides := ⟨h.demands, fun _ _ _ m => nomatch m⟩
  minds := h.minds
  ascribes v w c p a t hsite := by
    obtain ⟨n, hn⟩ := hsite
    cases hn
  expands s c p span m := nomatch m

/-- An expander is asked, or it has been asked for this text before. -/
theorem expansion_tracks {binding : Binding} {text : String}
    (h : ∀ accepted, Placed ctx start s s.transcript
      ⟨.evaluate, text, .expansion binding, accepted⟩) :
    Tracks ctx start item rest [] s (fun _ => True) (expansion ctx binding text s) := by
  unfold expansion
  refine .get_bind ?_
  cases s.cache.get? text with
  | some d => exact ⟨.of_same rfl rfl rfl rfl, trivial⟩
  | none =>
    refine (send_tracks fun _ => h).finish fun d t _ => ?_
    exact ⟨.of_same rfl rfl rfl rfl, trivial⟩

/-- **An expander is run** where it is invoked. -/
theorem expand_tracks (h : Serves ctx start (item.name.text :: rest) demand)
    (entry : .source item ∈ ctx.declarations.entries) (hs : Here ctx start item rest c s)
    (hp : Fits p c.resolve) {m : Invocation} (hsite : (p, .invocation m) ∈ item.parts)
    (span : Span) (hint : Option Ty) :
    Tracks ctx start item rest [] s (fun _ => True) (expand ctx demand span m hint s) := by
  have hplain : ¬PlainParts item.parts := fun hplain => hplain p m hsite
  unfold expand
  refine .of_not_plain hplain
    (freeNames [((p, .name m.expander) : Place × Source.Part Invocation)] ++ [])
    (.seq (typeOf_tracks entry h.minds hs hp m.expander) ?_)
  rintro ⟨binding, ty⟩ t hstep hglobal
  obtain ⟨ht, hbinding, hplace, hresolve, -⟩ := hs.step
    (typeOf_follows h.answers hs.checking m.expander)
    (typeOf_proceeds h.demands hs.place m.expander) hstep
  replace ht := ht c hplace
  refine .expect_bind fun hty => ?_
  subst hty
  -- an expander that is not defined yet cannot run
  suffices hrun :
      Due ctx t .evaluate (.expansion binding) (expansionText m (hint.getD .nil)) →
      (m.expander.text ∉ p.bound →
        binding = .global m.expander.text ∧ m.expander.text ∈ t.defined) →
      Tracks ctx start item rest [] t (fun _ => True)
        ((expansion ctx binding (expansionText m (hint.getD .nil)) >>= _) t) by
    cases binding with
    | lexical l =>
      refine hrun (.expand fun x hx => by cases hx) fun hfree => ?_
      exact absurd ((hp.locals _).mpr ⟨l, hresolve⟩) hfree
    | global x =>
      obtain ⟨rfl, hknown⟩ := hbinding
      refine .get_bind ?_
      by_cases hdefined : m.expander.text ∈ t.defined
      · simp only [hdefined, not_true_eq_false, ↓reduceIte]
        exact hrun (.expand fun x hx => by cases hx; exact ⟨rfl, hknown, hdefined⟩)
          fun _ => ⟨rfl, hdefined⟩
      · simp only [hdefined, not_false_eq_true, ↓reduceIte]
        exact .stop _
  intro due hvisible
  have hknown : ∀ x, binding = .global x → Refers t.resolutions item.name.text x := by
    rintro x rfl
    exact ht.refers hbinding.2
  have hhidden : m.expander.text ∈ p.bound →
      ∃ l, binding = .lexical l ∧ l.name.text = m.expander.text := by
    intro hbound
    cases binding with
    | lexical l => exact ⟨l, rfl, hp.named _ l hresolve⟩
    | global x => exact absurd hbound (hglobal x rfl).2
  have hlookedUp : LookedUp ctx m.expander binding t := by
    obtain ⟨depth, rfl⟩ := h.inner
    exact ⟨depth, s, hstep⟩
  refine .bindLast ht (expansion_follows ht.checking due)
    (expansion_proceeds.imp fun u d _ hscopes =>
      ⟨(congrArg Scopes.bare hscopes).trans ht.place, trivial⟩)
    (expansion_tracks fun accepted => ⟨item, t, ⟨ht.turn entry, rfl, .refl t⟩,
      .invocation hsite hlookedUp hhidden hvisible hknown⟩) ?_
  intro d u hu _ _
  cases hdecode : Expansion.decode [hint.getD .nil] span d with
  | error cause => exact .report _
  | ok result =>
    obtain ⟨message, e⟩ := result
    refine .reportIf fun _ => ?_
    have hnames := Expansion.onlyNames_of_decode hdecode
    have hinfer := infer_tracks (tends_expanded entry h) hu hp e hint (hnames p)
    exact .of_not_plain hplain _ (hinfer.imp fun _ _ => trivial)

/-- **The parts of a declaration** are evaluated and expanded where they are
written. -/
theorem tends_source (h : Serves ctx start (item.name.text :: rest) demand)
    (entry : .source item ∈ ctx.declarations.entries) :
    Tends ctx start item rest (· ∈ item.parts) demand (expand ctx demand) where
  entry := entry
  services := ⟨h.answers, expand_expands h.answers⟩
  provides := provides_expand h.demands
  minds := h.minds
  ascribes v w c p a t hsite hs hp hok hty hfold ht hdefined hknown hcovers accepted := by
    obtain ⟨depth, rfl⟩ := h.inner
    refine ⟨item, _, ⟨hs.turn entry, rfl, .refl _⟩, ?_⟩
    refine .ascription hsite ⟨hty, depth, v, w, hok, hfold, rfl⟩ hdefined hknown (fun x hx => ?_)
      hcovers
    exact (hp.locals x).mpr (ht.of_mem_loose hx).2
  expands s c p span m hint hsite hs hp := expand_tracks h entry hs hp hsite span hint

/-- Nothing is local where the examination of a declaration begins. -/
theorem fits_isolated {scopes : Scopes} (h : scopes.Faithful ctx.declarations.names) :
    Fits {} scopes.isolated.bare.resolve where
  locals x := by
    refine iff_of_false List.not_mem_nil ?_
    rintro ⟨l, hl⟩
    rw [Scopes.resolve_bare] at hl
    change (if x ∈ scopes.topLevel then some (Binding.global x) else none) = some (.lexical l) at hl
    split at hl <;> cases hl
  named x l hl := by
    rw [Scopes.resolve_bare] at hl
    change (if x ∈ scopes.topLevel then some (Binding.global x) else none) = some (.lexical l) at hl
    split at hl <;> cases hl
  globals x y hxy := by
    rw [Scopes.resolve_bare] at hxy
    exact (h.isolated.eq_of_resolve hxy).1

/-! ## Requests to declare and to define -/

namespace Keeps

variable {kept opened : List String}

/-- What keeps aside after something that was aside keeps aside. -/
theorem after {r : EStateM.Result Halt (State β) α} (h : Keeps ctx start kept opened t r)
    (hst : Aside ctx start kept opened s t) : Keeps ctx start kept opened s r := by
  cases r with
  | ok a u => exact hst.trans h
  | error e u => exact hst.trans h

/-- A sequence keeps aside if both of its steps do. -/
theorem bind {γ : Type} {step : Check β α} {next : α → Check β γ}
    (h : Keeps ctx start kept opened s (step s))
    (hnext : ∀ a t, step s = .ok a t → Keeps ctx start kept opened t (next a t)) :
    Keeps ctx start kept opened s ((step >>= next) s) := by
  cases hstep : step s with
  | ok a t =>
    rw [hstep] at h
    rw [bind_of_ok hstep]
    exact (hnext a t hstep).after h
  | error e t =>
    rw [hstep] at h
    rw [bind_of_error hstep]
    exact h

/-- A request is made that has nothing evaluated. -/
theorem send {kind : Request} (hkind : kind ≠ .evaluate) {subject : Subject} {text : String}
    {run : β → Except Backend.Fault α × β} :
    Keeps ctx start kept opened s (send kind subject text run s) := by
  unfold Analysis.send
  rcases run s.backend with ⟨f | a, b⟩
  · exact Aside.request rfl rfl rfl rfl fun h => absurd h hkind
  · exact Aside.request rfl rfl rfl rfl fun h => absurd h hkind

/-- A declaration is defined that is not among those that are kept. -/
theorem define {x : String} (hkept : x ∉ kept)
    (hopened : ∀ item, .source item ∈ ctx.declarations.entries → item.name.text ∉ opened →
      item.name.text ≠ x) {subject : Subject} {text : String} :
    Keeps ctx start kept opened s (define ctx x subject text s) := by
  by_cases hdefined : x ∈ s.defined
  · unfold Analysis.define
    rw [get_bind_apply, if_pos hdefined]
    exact Aside.refl s
  have hdefine : Aside ctx start kept opened s { s with defined := s.defined ++ [x] } := by
    refine ⟨fun ha => ha.later ⟨List.prefix_rfl, List.prefix_rfl⟩ rfl, fun _ _ => rfl,
      fun y hy hy' => ?_, fun item entry hout htallied => ?_, fun _ _ => rfl⟩
    · have hne : y ≠ x := fun h => hkept (h ▸ hy)
      simpa [hne] using hy'
    · refine htallied.of_same rfl fun hitem => ?_
      simpa [hopened item entry hout] using hitem
  rw [define_of_not_mem ctx hdefined]
  exact (send (by decide)).after hdefine

end Keeps

/-!
## One declaration

The steps of an examination are followed with the names that were looked up so
far, `done`, which are the first of all names that are mentioned in the
declaration. Each step adds the names of its part. Only when the declaration is
defined they have to be all.
-/

/-- **A declaration has done nothing yet**: it has looked up nothing, and is not
defined. -/
structure Pristine (item : Item) (s : State β) : Prop where
  lookups : lookups s.resolutions item.name.text = []
  undefined : item.name.text ∉ s.defined

/-- **A step tallies a declaration**: in whatever way it ends, the lookups of
the declaration agree with its source, and what went on besides is aside. -/
def Tallies (ctx : Context β) (start : State β) (item : Item) (rest : List String) (s : State β) :
    EStateM.Result Halt (State β) Unit → Prop
  | .ok _ t | .error _ t => Aside ctx start rest (item.name.text :: rest) s t ∧ Tallied t item

namespace Tallies

variable {e : State β} {done : List String}

/-- A declaration that is not through with its names. -/
theorem of_tracked (hnew : Pristine item e) (h : Tracked ctx start item rest done e t)
    (hle : done <+: freeNames item.parts) :
    Aside ctx start rest (item.name.text :: rest) e t ∧ Tallied t item := by
  refine ⟨h.aside, fun hplain => ?_, fun _ hdefined => absurd (h.undefined hdefined) hnew.undefined⟩
  rw [h.hand hplain, hnew.lookups]
  exact hle

/-- **A step of an examination**: if it halts then the names so far are the
first ones. -/
theorem seq (us : List String) (hnew : Pristine item e)
    (he : Tracked ctx start item rest done e s) {R : α → Prop} {step : Check β α}
    {next : α → Check β Unit} (h : Tracks ctx start item rest us s R (step s))
    (hle : done ++ us <+: freeNames item.parts)
    (hnext : ∀ a t, step s = .ok a t → Tracked ctx start item rest (done ++ us) e t → R a →
      Tallies ctx start item rest e (next a t)) :
    Tallies ctx start item rest e ((step >>= next) s) := by
  cases hstep : step s with
  | ok a t =>
    rw [hstep] at h
    rw [bind_of_ok hstep]
    exact hnext a t hstep (he.trans h.1) h.2
  | error f t =>
    rw [hstep] at h
    rw [bind_of_error hstep]
    obtain ⟨us', hle', ht⟩ := h
    exact of_tracked hnew (he.trans ht) (((List.prefix_append_right_inj done).mpr hle').trans hle)

/-- **A step of an examination that goes on.** The declaration is where it
was. -/
theorem bind {F : State β → α → Prop} (hnew : Pristine item e)
    (he : Tracked ctx start item rest done e s) (hs : Here ctx start item rest c s) {R : α → Prop}
    {phase : Phase} (hphase : Standing ctx s item.name.text phase) {step : Check β α}
    {next : α → Check β Unit}
    (hfollows : Follows ctx (item.name.text :: rest) (item.name.text :: rest) s F (step s))
    (hproceeds : Proceeds ctx s (fun t _ => At c t) (step s))
    (h : Tracks ctx start item rest us s R (step s)) (hle : done ++ us <+: freeNames item.parts)
    (hnext : ∀ a t, Here ctx start item rest c t → Standing ctx t item.name.text phase →
      Tracked ctx start item rest (done ++ us) e t → R a →
      Tallies ctx start item rest e (next a t)) :
    Tallies ctx start item rest e ((step >>= next) s) := by
  refine seq us hnew he h hle fun a t hstep ht ha => ?_
  obtain ⟨hhere, -, hplace⟩ := hs.step hfollows hproceeds hstep
  rw [hstep] at hfollows
  exact hnext a t (hhere c hplace) (hfollows.1.kept _ List.mem_cons_self _ hphase) ht ha

/-- **A declaration is declared.** -/
theorem declare (hnew : Pristine item e) (he : Tracked ctx start item rest done e s)
    (hs : Here ctx start item rest c s) (entry : .source item ∈ ctx.declarations.entries)
    (hphase : Standing ctx s item.name.text .begun) {subject : Subject} {text : String}
    (about : subject.declaration? = some item.name.text) (mentions : subject.mentions = [])
    (reads : subject.Reads .declare text) (ty : Option Ty)
    (publishes : ty.isSome = (Declaration.source item).isFunction)
    (hle : done <+: freeNames item.parts) {next : Unit → Check β Unit}
    (hnext : ∀ t, Here ctx start item rest c t → Standing ctx t item.name.text .announced →
      Tracked ctx start item rest done e t → Tallies ctx start item rest e (next () t)) :
    Tallies ctx start item rest e ((declare ctx subject text >>= next)
      { s with
        types := (ty.map (item.name.text, ·)).toList ++ s.types
        inProgress :=
          if (Declaration.source item).isFunction then s.inProgress.erase item.name.text
          else s.inProgress }) := by
  generalize hu : ({ s with
    types := (ty.map (item.name.text, ·)).toList ++ s.types
    inProgress :=
      if (Declaration.source item).isFunction then s.inProgress.erase item.name.text
      else s.inProgress } : State β) = u
  have hsu : Tracked ctx start item rest [] s u := hu ▸ .of_same rfl rfl rfl rfl
  have heu : Tracked ctx start item rest done e u := by simpa using he.trans hsu
  refine seq [] (R := fun _ => True) hnew heu (send_tracks fun h => by cases h)
    (by rwa [List.append_nil]) fun a t hstep ht _ => ?_
  rw [List.append_nil] at ht
  obtain ⟨t', hdeclare, hdetour, hannounced⟩ | ⟨f, t', hdeclare, -⟩ :=
    declare_cases entry hs.checking hphase about mentions reads publishes hu.symm
  · obtain ⟨-, rfl⟩ := EStateM.Result.ok.inj (hdeclare.symm.trans hstep)
    have hplace : At c t' := by
      obtain ⟨-, rfl, -⟩ := (Proceeds.send fun _ => rfl : Proceeds ctx u _ _).of_eq_ok hstep
      exact hu ▸ hs.place
    exact hnext t' ⟨hs.course.trans hdetour.course, hdetour.checking hs.checking.book, hplace⟩
      hannounced ht
  · cases hdeclare.symm.trans hstep

/-- A type that is not the expected one is reported, and then the names so far
are the first ones of the declaration. -/
theorem expect_bind (hnew : Pristine item e) (he : Tracked ctx start item rest done e s)
    (hle : done <+: freeNames item.parts) {site : Site} {expected found : Ty} {span : Span}
    {next : Unit → Check β Unit} (h : Tallies ctx start item rest e (next () s)) :
    Tallies ctx start item rest e ((expect site expected found span >>= next) s) := by
  unfold expect
  split
  · exact h
  · exact of_tracked hnew (he.congr (.refl e) (.of_same rfl rfl rfl rfl)) hle

/-- The same for any other test that has to come out false. -/
theorem reportIf (hnew : Pristine item e) (he : Tracked ctx start item rest done e s)
    (hle : done <+: freeNames item.parts) {P : Prop} [Decidable P] {d : Diagnostic}
    {next : Unit → Check β Unit} (h : Tallies ctx start item rest e (next () s)) :
    Tallies ctx start item rest e ((if P then report d >>= next else next ()) s) := by
  split
  · exact of_tracked hnew (he.congr (.refl e) (.of_same rfl rfl rfl rfl)) hle
  · exact h

/-- **A declaration is defined**, once it has looked up all its names. -/
theorem define (hnew : Pristine item e)
    (he : Tracked ctx start item rest (freeNames item.parts) e s) (hout : item.name.text ∉ rest)
    {subject : Subject} {text : String} :
    Tallies ctx start item rest e (define ctx item.name.text subject text s) := by
  have hkeeps : Keeps ctx start rest (item.name.text :: rest) s
      (Analysis.define ctx item.name.text subject text s) :=
    .define hout fun _ _ hother => List.ne_of_not_mem_cons hother
  have htallied (t : State β) (ht : t.resolutions = s.resolutions) : Tallied t item := by
    have hall (hplain : PlainParts item.parts) :
        lookups t.resolutions item.name.text = freeNames item.parts := by
      rw [ht, he.hand hplain, hnew.lookups, List.nil_append]
    exact ⟨fun hplain => hall hplain ▸ List.prefix_rfl, fun hplain _ => hall hplain⟩
  have hundefined : item.name.text ∉ s.defined := fun h => hnew.undefined (he.undefined h)
  rw [define_of_not_mem ctx hundefined] at hkeeps ⊢
  unfold send at hkeeps ⊢
  generalize ctx.backend.define text _ = r at hkeeps ⊢
  rcases r with ⟨f | a, b⟩
  · exact ⟨he.aside.trans hkeeps, htallied _ rfl⟩
  · exact ⟨he.aside.trans hkeeps, htallied _ rfl⟩

/-- What is learned by a definition is of no account here. -/
theorem learn {step : Check β Unit} {next : Unit → Check β Unit}
    (h : Tallies ctx start item rest e (step s))
    (hnext : ∀ t, ∃ types values, next () t = .ok () { t with types, values }) :
    Tallies ctx start item rest e ((step >>= next) s) := by
  cases hstep : step s with
  | ok a t =>
    rw [hstep] at h
    obtain ⟨types, values, hok⟩ := hnext t
    rw [bind_of_ok hstep, hok]
    exact ⟨h.1.trans (.of_same rfl rfl rfl rfl), h.2.of_same rfl fun hx => hx⟩
  | error f t =>
    rw [hstep] at h
    rw [bind_of_error hstep]
    exact h

/-- A step that tallies a declaration keeps aside from all others. -/
theorem keeps (entry : .source item ∈ ctx.declarations.entries)
    {r : EStateM.Result Halt (State β) Unit} (h : Tallies ctx start item rest e r) :
    Keeps ctx start rest rest e r := by
  have haside {t : State β}
      (h : Aside ctx start rest (item.name.text :: rest) e t ∧ Tallied t item) :
      Aside ctx start rest rest e t := by
    refine { h.1 with tallied := fun other hother hout htallied => ?_ }
    by_cases hname : other.name.text = item.name.text
    · -- the names of declarations are distinct, so it is the same one
      have hfind := Declarations.find?_eq_some_iff.mpr ⟨hother, rfl⟩
      have hfind' := Declarations.find?_eq_some_iff.mpr ⟨entry, hname.symm⟩
      cases hfind.symm.trans hfind'
      exact h.2
    · exact h.1.tallied other hother (List.not_mem_cons_of_ne_of_not_mem hname hout) htallied
  cases r with
  | ok a t => exact haside h
  | error f t => exact haside h

end Tallies

/-- A built-in looks up nothing. -/
theorem examineBuiltin_keeps {b : Builtin} (entry : .builtin b ∈ ctx.declarations.entries)
    (hout : b.name ∉ stack) : Keeps ctx start stack stack s (examineBuiltin ctx b s) := by
  unfold examineBuiltin
  refine .bind (.send (by decide)) fun _ t _ => ?_
  refine .bind (.define hout fun item hitem _ hname => ?_) fun _ u _ => ?_
  · -- the names of declarations are distinct, and this is a built-in
    have hfind := Declarations.find?_eq_some_iff.mpr ⟨hitem, hname⟩
    cases hfind.symm.trans (Declarations.find?_eq_some_iff.mpr ⟨entry, rfl⟩)
  · cases b.alias? with
    | none => exact Aside.of_same rfl rfl rfl rfl
    | some ty => exact Aside.of_same rfl rfl rfl rfl

/-- **The lookups of a function agree with its source.** Its parameters, its
result and its body are tracked one after the other, and this is the order of
its parts. If it halts on the way then what it has looked up are the first of
the names in it. -/
theorem examineFunction_tallies {f : Source.Function}
    (hserves : Serves ctx start (f.name.text :: rest) demand)
    (entry : .source (.function f) ∈ ctx.declarations.entries)
    (hs : Here ctx start (.function f) rest c s) (hp : Fits {} c.resolve)
    (hnew : Pristine (.function f) s) (hphase : Standing ctx s f.name.text .begun)
    (hmark : mark f.name.text t = .ok () s) :
    Tallies ctx start (.function f) rest s (examineFunction ctx demand f t) := by
  have h : Tends ctx start (.function f) rest (· ∈ (Item.function f).parts) demand
      (expand ctx demand) := tends_source hserves entry
  have hout : f.name.text ∉ rest := fun hmem => hs.checking.ne_of_mem hmem rfl
  have hparts : ∀ q ∈ (Item.function f).parts, q ∈ (Item.function f).parts := fun _ hq => hq
  obtain ⟨hhead, hbody⟩ := List.forall_mem_append.mp hparts
  obtain ⟨hparams, hresult⟩ := List.forall_mem_append.mp hhead
  obtain ⟨hsite, hresult⟩ := List.forall_mem_cons.mp hresult
  have hnames : freeNames (Item.function f).parts
      = freeNames (Source.partsParams {} f.params)
        ++ freeNames (f.result.parts (Place.ascription {}))
        ++ freeNames (f.body.parts (Place.body {} (f.params.map (·.name.text)))) := by
    rw [Item.parts, Source.freeNames_append, Source.freeNames_append, Source.freeNames_ascription]
  -- parameters, result and body are checked in this order, and so are the names met in it
  unfold examineFunction
  rw [bind_of_ok hmark]
  refine .bind hnew (.refl s) hs hphase (inferParams_follows h.services hs.checking f.params)
    (inferParams_proceeds h.provides hs.place f.params)
    (inferParams_tracks h hs hp f.params hparams) ?_ ?_
  · rw [hnames, List.append_assoc]
    exact List.prefix_append ..
  intro params t ht hphase hst hlocals
  refine .bind hnew hst ht hphase
    (ascribed_follows ht.checking fun u hu => infer_follows h.services hu f.result _)
    (ascribed_proceeds ht.place fun u hu => infer_proceeds h.provides hu f.result _)
    (ascribed_tracks h ht hp hsite fun u hu =>
      infer_tracks h hu hp.ascription f.result _ hresult) ?_ ?_
  · rw [hnames, List.nil_append]
    exact List.prefix_append ..
  intro result u hu hphase hsu _
  have hle : _ <+: freeNames (Item.function f).parts := hnames ▸ List.prefix_append ..
  -- the function is declared here, and may be demanded from its own body
  refine .declare hnew hsu hu entry hphase rfl rfl ?_ (some _) rfl hle ?_
  · exact .inl ⟨_, rfl, rfl⟩
  intro v hv _ hsv
  refine .seq (freeNames (f.body.parts (Place.body {} (f.params.map (·.name.text)))))
    (R := fun _ => True) hnew hsv (.inScope ?_) (hnames ▸ List.prefix_rfl) ?_
  · refine .introduceParams_bind hv.push hp (Scopes.inside_push c) fun w d hw hfits => ?_
    rw [hlocals] at hfits
    exact (checkBlock_tracks h hw hfits f.body _ hbody).imp fun _ _ => trivial
  intro body w _ hsw _
  have hall : Tracked ctx start (.function f) rest (freeNames (Item.function f).parts) s w :=
    hnames ▸ hsw
  refine .expect_bind hnew hall List.prefix_rfl ?_
  refine .reportIf hnew hall List.prefix_rfl ?_
  exact .define hnew hall hout

/-- The same of a constant, of which there are only an ascription and a body. -/
theorem examineConstant_tallies {const : Source.Constant}
    (hserves : Serves ctx start (const.name.text :: rest) demand)
    (entry : .source (.constant const) ∈ ctx.declarations.entries)
    (hs : Here ctx start (.constant const) rest c s) (hp : Fits {} c.resolve)
    (hnew : Pristine (.constant const) s) (hphase : Standing ctx s const.name.text .begun)
    (hmark : mark const.name.text t = .ok () s) :
    Tallies ctx start (.constant const) rest s (examineConstant ctx demand const t) := by
  have h : Tends ctx start (.constant const) rest (· ∈ (Item.constant const).parts) demand
      (expand ctx demand) := tends_source hserves entry
  have hout : const.name.text ∉ rest := fun hmem => hs.checking.ne_of_mem hmem rfl
  have hparts : ∀ q ∈ (Item.constant const).parts, q ∈ (Item.constant const).parts := fun _ hq => hq
  obtain ⟨hhead, hbody⟩ := List.forall_mem_append.mp hparts
  obtain ⟨hsite, hascription⟩ := List.forall_mem_cons.mp hhead
  have hnames : freeNames (Item.constant const).parts
      = freeNames (const.ascription.parts (Place.ascription {}))
        ++ freeNames (const.body.parts {}) := by
    rw [Item.parts, Source.freeNames_append, Source.freeNames_ascription]
  unfold examineConstant
  rw [bind_of_ok hmark]
  refine .bind hnew (.refl s) hs hphase
    (ascribed_follows hs.checking fun u hu => infer_follows h.services hu const.ascription _)
    (ascribed_proceeds hs.place fun u hu => infer_proceeds h.provides hu const.ascription _)
    (ascribed_tracks h hs hp hsite fun u hu =>
      infer_tracks h hu hp.ascription const.ascription _ hascription) ?_ ?_
  · rw [hnames, List.nil_append]
    exact List.prefix_append ..
  intro ty t ht hphase hst _
  have hle : _ <+: freeNames (Item.constant const).parts := hnames ▸ List.prefix_append ..
  refine .declare hnew hst ht entry hphase rfl rfl ?_ none rfl hle ?_
  · exact .inr ⟨_, rfl⟩
  intro u hu _ hsu
  refine .seq (freeNames (const.body.parts {})) (R := fun _ => True) hnew hsu (.inScope ?_)
    (hnames ▸ List.prefix_rfl) ?_
  · exact (checkBlock_tracks h hu.push hp const.body _ hbody).imp fun _ _ => trivial
  intro body v _ hsv _
  have hall : Tracked ctx start (.constant const) rest (freeNames (Item.constant const).parts) s
      v := hnames ▸ hsv
  refine .expect_bind hnew hall List.prefix_rfl ?_
  refine .seq [] (R := fun _ => True) hnew hall ⟨.of_same rfl rfl rfl rfl, trivial⟩
    (by rewrite [List.append_nil]; exact List.prefix_rfl) ?_
  intro value w _ hsw _
  rw [List.append_nil] at hsw
  cases value with
  | some value => exact .learn (.define hnew hsw hout) fun x => ⟨_, _, rfl⟩
  | none => exact .learn (.define hnew hsw hout) fun x => ⟨_, _, rfl⟩

/-- **Examining a declaration** keeps aside from all that are under analysis but
it. -/
theorem examine_keeps {d : Declaration} (entry : d ∈ ctx.declarations.entries)
    (hserves : d.isBuiltin = false → Serves ctx start (d.name :: stack) demand)
    (hc : Course ctx start s) (hs : Checking ctx (d.name :: stack) s)
    (hphase : Standing ctx s d.name .begun) {scopes : Scopes}
    (hscopes : scopes.Faithful ctx.declarations.names) (htop : s.scopes = scopes.isolated)
    (hlookups : lookups s.resolutions d.name = []) (hprogress : d.name ∉ t.inProgress)
    (hmarked : s =
      { t with inProgress := if d.isBuiltin then t.inProgress else d.name :: t.inProgress }) :
    Keeps ctx start stack stack s (examine ctx demand d t) := by
  have hmark (name : String) (h : name ∉ t.inProgress) :
      mark name t = .ok () { t with inProgress := name :: t.inProgress } := by
    rw [← List.insert_of_not_mem h]
    rfl
  have hundefined : d.name ∉ s.defined := by simp [hphase.defined]
  have hplace : At scopes.isolated.bare s := congrArg Scopes.bare htop
  have hp : Fits {} scopes.isolated.bare.resolve := fits_isolated hscopes
  match d with
  | .builtin b =>
    obtain rfl : s = t := hmarked
    exact examineBuiltin_keeps entry fun hmem => hs.ne_of_mem hmem rfl
  | .source (.function f) =>
    exact (examineFunction_tallies (hserves rfl) entry ⟨hc, hs, hplace⟩ hp ⟨hlookups, hundefined⟩
      hphase (hmarked ▸ hmark _ hprogress)).keeps entry
  | .source (.constant const) =>
    exact (examineConstant_tallies (hserves rfl) entry ⟨hc, hs, hplace⟩ hp ⟨hlookups, hundefined⟩
      hphase (hmarked ▸ hmark _ hprogress)).keeps entry

/-!
## On demand

The declaration that asks is under analysis, and is kept: the one that is
settled for it is another. So the lookups of the first are what they were, and
those of the second agree with its own source when it is left. The induction is
on the room, as it is for settling.
-/

/-- **Settling a declaration** keeps aside from all that are under analysis, if
examining it does. -/
theorem settle_keeps {d : Declaration} {step : Check β Unit} (hstart : Entered start)
    (hc : Course ctx start s) (hs : Checking ctx stack s) (summons : Summons s d.name t)
    (entry : d ∈ ctx.declarations.entries) (phase : Standing ctx s d.name .untouched)
    (hstep : ∀ e u, Course ctx start e → Checking ctx (d.name :: stack) e →
      Standing ctx e d.name .begun → e.scopes = t.scopes.isolated →
      lookups e.resolutions d.name = [] → d.name ∉ u.inProgress →
      e = { u with inProgress := if d.isBuiltin then u.inProgress else d.name :: u.inProgress } →
      Keeps ctx start stack stack e (step u)) :
    Keeps ctx start stack stack t (settle d.name step t) := by
  have hphase := phase.summons summons
  have hnew : ¬(d.name ∈ t.defined ∨ d.name ∈ t.failed) := by
    simp [hphase.defined, hphase.failed, Phase.isFailed]
  have hprogress : d.name ∉ t.inProgress := by simp [hphase.inProgress, Phase.isOpen]
  have hentered : Entered t := by
    cases summons with
    | unbidden idle => exact hstart.course hc
    | lookup => exact (hstart.course hc).resolve _ _
  have henter := Detour.enter hs summons entry phase
  -- to enter and to leave is of no account for lookups, definitions and requests
  have hkeeps := (hstep _
    { t with active := d.name :: t.active, scopes := t.scopes.isolated, inAscription := false }
    (hc.trans henter.course) (henter.checking hs.book) ((hphase.enter entry).move _ _) rfl
    (hentered.lookups_eq_nil hphase) hprogress rfl).after (s := t) (.of_same rfl rfl rfl rfl)
  unfold settle atTopLevel
  rw [if_neg hnew]
  generalize step _ = result at hkeeps ⊢
  rcases result with ⟨a, w⟩ | ⟨- | f, w⟩
  · exact Aside.trans hkeeps (.of_same rfl rfl rfl rfl)
  · exact Aside.trans hkeeps (.refuse rfl rfl rfl (List.prefix_append ..))
  · exact Aside.trans hkeeps (.of_same rfl rfl rfl rfl)

/-- **Asking for the type of a declaration** keeps aside, if settling it
does. -/
theorem demandWith_minds {analyze : Declaration → Check β Unit} (hstack : Askable ctx stack)
    (hanalyze : ∀ s d, Course ctx start s → Checking ctx stack s → d ∈ ctx.declarations.entries →
      Standing ctx s d.name .untouched →
      Keeps ctx start stack stack (s.resolve d.name (.global d.name))
        (analyze d (s.resolve d.name (.global d.name)))) :
    Minds ctx start stack (demandWith ctx analyze) := by
  intro s x hc hs hx
  unfold demandWith
  rw [get_bind_apply]
  cases hty : (s.resolve x (.global x)).types.lookup x with
  | some ty => exact Aside.refl _
  | none =>
    by_cases hfailed : x ∈ (s.resolve x (.global x)).failed
    · simp only [hfailed, ↓reduceIte]
      exact Aside.refl _
    by_cases hprogress : x ∈ (s.resolve x (.global x)).inProgress
    · simp only [hfailed, hprogress, ↓reduceIte]
      exact Aside.refl _
    obtain ⟨d, hd, rfl⟩ := List.mem_map.mp hx
    have hkeeps := hanalyze s d hc hs hd (standing_untouched hs hstack hty hfailed hprogress)
    simp only [hfailed, hprogress, ↓reduceIte, Declarations.find?_eq_some_iff.mpr ⟨hd, rfl⟩]
    refine .bind hkeeps fun _ t _ => ?_
    rw [get_bind_apply]
    cases t.types.lookup d.name with
    | some ty => exact Aside.refl _
    | none =>
      dsimp only
      split
      · exact Aside.refl _
      · exact Aside.refl _

/-- **Declarations can be settled** without a trace on those under analysis,
with room for all that are not. -/
theorem analyzeWithin_keeps (hstart : Entered start) (depth : Nat) {d : Declaration}
    (hc : Course ctx start s) (hs : Checking ctx stack s) (hstack : Askable ctx stack)
    (summons : Summons s d.name t) (entry : d ∈ ctx.declarations.entries)
    (phase : Standing ctx s d.name .untouched)
    (hdepth : ctx.declarations.count ≤ depth + stack.length) :
    Keeps ctx start stack stack t (analyzeWithin ctx depth d t) := by
  induction depth generalizing stack s t d with
  | zero => exact Aside.refl t
  | succ depth ih =>
    have hscopes := (hs.book.summons summons).scopes
    refine settle_keeps hstart hc hs summons entry phase
      fun e u he hchecking hbegun htop hlookups hprogress hmarked => ?_
    have hdepth' : ctx.declarations.count ≤ depth + (d.name :: stack).length := by
      rw [List.length_cons]
      omega
    have hstack' (hbuiltin : d.isBuiltin = false) : Askable ctx (d.name :: stack) :=
      List.forall_mem_cons.mpr ⟨(Declarations.isBuiltin_name entry).trans hbuiltin, hstack⟩
    refine examine_keeps entry (fun hbuiltin => ⟨⟨depth, rfl⟩, ?_,
      (provides_demandWith ctx depth).demands, ?_⟩) he hchecking hbegun hscopes htop hlookups
      hprogress hmarked
    · refine demandWith_answers (hstack' hbuiltin) fun s d' hs entry phase => ?_
      exact analyzeWithin_settles depth hs (hstack' hbuiltin) .lookup entry phase hdepth'
    · refine demandWith_minds (hstack' hbuiltin) fun s d' hc hs entry phase => ?_
      exact ih hc hs (hstack' hbuiltin) .lookup entry phase hdepth'

end Stagewise.Analysis
