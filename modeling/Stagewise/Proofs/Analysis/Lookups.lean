import Stagewise.Proofs.Analysis.Tracks

/-!
# Names in a tree, and names that are looked up

Checking a tree looks up the names that are mentioned in it, one after the
other, in the order in which they are written, and has its ascriptions evaluated
where they stand. So what the declaration at hand has looked up can be told from
its source (`infer_tracks` and its companions).

The induction is on the tree. It is the same for trees of the source and for
those that came of an expansion, and what differs between them is a matter of
their parts: which parts there can be, and what is to be said of ascriptions and
invocations among them, is left open here (`Tends`).
-/

namespace Stagewise.Analysis

open Source (Expr Stmt Param Item Invocation Place PlainParts freeNames)

variable {β α μ : Type} {ctx : Context β} {start s t : State β} {c : Scopes} {item : Item}
  {rest us : List String} {p : Place}

/-! ## What is left to others -/

/-- **A step keeps aside** from those that are under analysis, in whatever way
it ends. -/
def Keeps (ctx : Context β) (start : State β) (kept opened : List String) (s : State β) :
    EStateM.Result Halt (State β) α → Prop
  | .ok _ t | .error _ t => Aside ctx start kept opened s t

/-- **Asking for the type of a declaration** keeps aside. Its name was looked up
just before. -/
def Minds (ctx : Context β) (start : State β) (stack : List String)
    (demand : String → Check β Ty) : Prop :=
  ∀ s x, Course ctx start s → Checking ctx stack s → x ∈ ctx.declarations.names →
    Keeps ctx start stack stack (s.resolve x (.global x)) (demand x (s.resolve x (.global x)))

/-- **What the checking of trees leaves to others**, where `Site` tells which
parts a tree may have. An ascription among them may be evaluated, and an
invocation can be expanded. -/
structure Tends (ctx : Context β) (start : State β) (item : Item) (rest : List String)
    (Site : Place × Source.Part μ → Prop) (demand : String → Check β Ty)
    (expand : Span → μ → Option Ty → Check β Term) : Prop where
  entry : .source item ∈ ctx.declarations.entries
  services : Services ctx (item.name.text :: rest) demand expand
  provides : Provides ctx demand expand
  minds : Minds ctx start (item.name.text :: rest) demand
  ascribes : ∀ (v w : State β) (c : Scopes) (p : Place) (a : Expr μ) (t : Term),
    Site (p, .ascription a) → Here ctx start item rest c (w.folding t none) → Fits p c.resolve →
    inAscription (infer ctx demand expand a (some .type)) v = .ok t w → t.ty = .type →
    (ctx.options.fold = true → Fold.term w.values t = none) →
    t.Typed (Published w) c.resolve → (∀ x ∈ t.globals, x ∈ w.defined) →
    (∀ x ∈ t.globals, Refers w.resolutions item.name.text x) →
    Covers (fun p => a.parts p) p.ascription t.globals (fun bound => t.loose bound) →
    ∀ accepted, Placed ctx start (w.folding t none) w.transcript
      ⟨.evaluate, t.lower.text, .term t, accepted⟩
  expands : ∀ (s : State β) (c : Scopes) (p : Place) (span : Span) (m : μ) (hint : Option Ty),
    Site (p, .invocation m) → Here ctx start item rest c s → Fits p c.resolve →
    Tracks ctx start item rest [] s (fun _ => True) (expand span m hint s)

/-- What goes on aside is not the doing of the declaration at hand. -/
theorem Aside.tracked (h : Aside ctx start (item.name.text :: rest) (item.name.text :: rest) s t) :
    Tracked ctx start item rest [] s t where
  aside :=
    { requests := h.requests
      lookups := fun x hx => h.lookups x (List.mem_cons_of_mem _ hx)
      undefined := fun x hx => h.undefined x (List.mem_cons_of_mem _ hx)
      tallied := h.tallied
      silent := h.silent }
  hand _ := by rw [h.lookups _ List.mem_cons_self, List.append_nil]
  undefined := h.undefined _ List.mem_cons_self

/-! ## Names -/

/-- **A name is looked up** that refers to a declaration. -/
theorem Tracked.resolve_global (entry : .source item ∈ ctx.declarations.entries)
    (hs : Checking ctx (item.name.text :: rest) s) (name : String) :
    Tracked ctx start item rest [name] s (s.resolve name (.global name)) := by
  have htop : s.active.head? = some item.name.text := by rw [hs.active, List.head?_cons]
  have hne (x : String) (hx : x ≠ item.name.text) :
      lookups (s.resolve name (.global name)).resolutions x = lookups s.resolutions x := by
    refine lookups_append_of_ne ?_
    rw [htop]
    exact fun h => hx (Option.some.inj h).symm
  refine ⟨⟨fun ha => ha.later ⟨List.prefix_append .., List.prefix_rfl⟩ rfl,
    fun x hx => hne x (hs.ne_of_mem hx), fun x _ hx => hx, ?_, ?_⟩, ?_, fun hx => hx⟩
  · intro other _ hout htallied
    exact htallied.of_same (hne _ (List.ne_of_not_mem_cons hout)) fun hx => hx
  · exact fun x hx => hne x fun h => hx ⟨item, entry, h.symm⟩
  · intro _
    rw [State.resolve, htop]
    exact lookups_append_global

/-- A name is looked up that refers to a local. -/
theorem Tracked.resolve_lexical (name : String) (l : Local) :
    Tracked ctx start item rest [] s (s.resolve name (.lexical l)) where
  aside :=
    { requests := fun ha => ha.later ⟨List.prefix_append .., List.prefix_rfl⟩ rfl
      lookups := fun _ _ => lookups_append_lexical
      undefined := fun _ _ hx => hx
      tallied := fun _ _ _ htallied => htallied.of_same lookups_append_lexical fun hx => hx
      silent := fun _ _ => lookups_append_lexical }
  hand _ := by rw [List.append_nil]; exact lookups_append_lexical
  undefined hx := hx

/-- **What a name refers to** is looked up if it is not a local. -/
theorem typeOf_tracks {demand : String → Check β Ty}
    (entry : .source item ∈ ctx.declarations.entries)
    (h : Minds ctx start (item.name.text :: rest) demand) (hs : Here ctx start item rest c s)
    (hp : Fits p c.resolve) (name : Name) :
    Tracks ctx start item rest (freeNames [((p, .name name) : Place × Source.Part μ)]) s
      (fun out => ∀ y, out.1 = .global y → y = name.text ∧ name.text ∉ p.bound)
      (typeOf demand name s) := by
  rw [Source.freeNames_name, Source.freeNames_nil, List.append_nil]
  unfold typeOf
  refine .get_bind ?_
  cases hget : s.scopes.get name.text with
  | none => exact .report _
  | some found =>
    obtain ⟨binding, scopes⟩ := found
    obtain ⟨hscopes, hglobal⟩ := hs.checking.book.scopes.get hget
    obtain ⟨hresolve, -⟩ := Scopes.of_get_eq_some hget
    rw [← Scopes.resolve_bare, show s.scopes.bare = c from hs.place] at hresolve
    have hmove : Here ctx start item rest _ { s with scopes } := hs.move s.inAscription hscopes
    have hstill : Tracked ctx start item rest [] s { s with scopes } := .of_same rfl rfl rfl rfl
    -- a local is bound in the place and leaves nothing to look up; a declaration is demanded
    cases binding with
    | lexical l =>
      rw [if_pos ((hp.locals _).mpr ⟨l, hresolve⟩)]
      refine ⟨(Tracked.resolve_lexical name.text l).congr hstill (.refl _), fun y hy => ?_⟩
      cases hy
    | global x =>
      obtain ⟨rfl, hx⟩ := hglobal x rfl
      have hfree : name.text ∉ p.bound := by
        intro hbound
        obtain ⟨l, hl⟩ := (hp.locals _).mp hbound
        cases hresolve.symm.trans hl
      rw [if_neg hfree]
      have hlookup : Tracked ctx start item rest [name.text] s _ :=
        (Tracked.resolve_global entry hmove.checking name.text).congr hstill (.refl _)
      have hkeeps := h _ _ hmove.course hmove.checking hx
      show Tracks ctx start item rest ([name.text] ++ []) s _
        ((demand name.text >>= fun ty => pure (Binding.global name.text, ty))
          (State.resolve { s with scopes } name.text (.global name.text)))
      refine .after hlookup (.finish (R := fun _ => True) ?_ fun ty t _ => .pure fun y hy => ?_)
      · generalize demand name.text _ = r at hkeeps ⊢
        rcases r with ⟨ty, t⟩ | ⟨e, t⟩
        · exact ⟨hkeeps.tracked, trivial⟩
        · exact ⟨[], List.prefix_rfl, hkeeps.tracked⟩
      · cases hy
        exact ⟨rfl, hfree⟩

/-! ## Ascriptions -/

/-- **A request is made** that has its place, if it needs one. -/
theorem send_tracks {kind : Request} {subject : Subject} {text : String}
    {run : β → Except Backend.Fault α × β}
    (h : kind = .evaluate → ∀ accepted,
      Placed ctx start s s.transcript ⟨kind, text, subject, accepted⟩) :
    Tracks ctx start item rest [] s (fun _ => True) (send kind subject text run s) := by
  unfold send
  rcases run s.backend with ⟨f | a, b⟩
  · exact ⟨[], List.prefix_rfl, .request rfl rfl rfl rfl fun hkind => h hkind false⟩
  · exact ⟨.request rfl rfl rfl rfl fun hkind => h hkind true, trivial⟩

/-- An ascription that has to be evaluated makes one request, in the place where
the ascription stands. It is made only if all that is in the term is defined. -/
theorem evaluate_tracks {e : Term}
    (h : (∀ x ∈ e.globals, x ∈ s.defined) → ∀ accepted,
      Placed ctx start s s.transcript ⟨.evaluate, e.lower.text, .term e, accepted⟩) :
    Tracks ctx start item rest [] s (fun _ => True) (evaluate ctx e s) := by
  unfold evaluate
  refine .get_bind ?_
  cases hfind : e.globals.find? (· ∉ s.defined) with
  | some x => exact .stop _
  | none =>
    have hdefined : ∀ x ∈ e.globals, x ∈ s.defined := by simpa using hfind
    refine (send_tracks fun _ => h hdefined).finish fun d t _ => ?_
    cases Value.decode [] d with
    | ok v => exact .pure trivial
    | error cause => exact .stop _

/-- What comes of folding depends on the values that are known, and is noted. -/
theorem folded_bind_apply (e : Term) (next : Option Value → Check β α) :
    (folded ctx e >>= next) s = next (if ctx.options.fold then Fold.term s.values e else none)
      (s.folding e (if ctx.options.fold then Fold.term s.values e else none)) := rfl

/-- **An ascription tracks the names in it.** If it is evaluated then that is
where it is written. -/
theorem ascribed_tracks {Site : Place × Source.Part μ → Prop} {demand : String → Check β Ty}
    {expand : Span → μ → Option Ty → Check β Term}
    (h : Tends ctx start item rest Site demand expand) (hs : Here ctx start item rest c s)
    (hp : Fits p c.resolve) {a : Expr μ} (hsite : Site (p, .ascription a)) {span : Span}
    (hstep : ∀ t, Here ctx start item rest c t → Tracks ctx start item rest us t
      (fun e => Covers (fun p => a.parts p) p.ascription e.globals fun bound => e.loose bound)
      (infer ctx demand expand a (some .type) t)) :
    Tracks ctx start item rest us s (fun _ => True)
      (ascribed ctx span (infer ctx demand expand a (some .type)) s) := by
  -- the ascription is inferred, and its value is folded if it can be and evaluated otherwise
  unfold ascribed
  rw [← List.append_nil us]
  refine (Tracks.inAscription (hstep _ hs.inAscription)).seq fun e t hok hcovers => ?_
  obtain ⟨ht, htyped, hplace, he⟩ := hs.step
    (.inAscription hs.checking (fun _ _ _ h => h) fun t ht _ => infer_follows h.services ht a _)
    (Proceeds.inAscription (R := Yields c) (fun _ _ _ h => h)
      (infer_proceeds h.provides hs.inAscription.place a _)) hok
  replace ht := ht c hplace
  have hknown : ∀ x ∈ e.globals, Refers t.resolutions item.name.text x := by
    intro x hx
    obtain ⟨ty, hty⟩ := Term.WellTyped.of_mem_globals e htyped x hx
    exact ht.refers hty
  refine .expect_bind fun hty => ?_
  rw [folded_bind_apply]
  generalize hv : (if ctx.options.fold then Fold.term t.values e else none) = v
  have hu := ht.folding e v
  have hnote : Tracked ctx start item rest [] t (t.folding e v) := .of_same rfl rfl rfl rfl
  refine .after hnote ?_
  cases v with
  | some v =>
    cases v with
    | type ty => exact .pure trivial
    | _ => exact .stop _
  | none =>
    refine Tracks.finish (evaluate_tracks fun hdefined => ?_) fun v w _ => ?_
    · refine h.ascribes _ t c p a e hsite hu hp hok hty (fun hfold => ?_) he hdefined hknown hcovers
      rwa [if_pos hfold] at hv
    · cases v with
      | type ty => exact .pure trivial
      | _ => exact .stop _

/-! ## Locals -/

theorem Local.map_text_ofParams (params : List (Name × Ty)) :
    (Local.ofParams params).map (·.name.text) = params.map (·.1.text) := by
  simp [Local.ofParams]

/-- **A local is introduced**, and what comes after is in a place where it is in
scope. -/
theorem Tracks.introduce_bind {R : α → Prop} {d : Scopes} (hs : Here ctx start item rest d s)
    (hp : Fits p d.resolve) (hinside : Scopes.Inside c d) {kind : Local.Kind} {name : Name}
    {ty : Ty} {next : Unit → Check β α}
    (hnext : ∀ t d', Here ctx start item rest d' t → Scopes.Inside c d' →
      Fits (p.body [name.text]) d'.resolve → Tracks ctx start item rest us t R (next () t)) :
    Tracks ctx start item rest us s R ((Analysis.introduce kind name ty >>= next) s) := by
  refine .bindIn hs (.introduce hs.checking) (.introduce hs.place hinside) .introduce ?_
  rintro - t ht ⟨d', hd', hinside', henv⟩ -
  exact hnext t d' (ht d' hd') hinside' (henv ▸ hp.bind ⟨name, kind, ty⟩)

/-- Parameters are introduced. -/
theorem Tracks.introduceParams_bind {R : α → Prop} {d : Scopes} (hs : Here ctx start item rest d s)
    (hp : Fits p d.resolve) (hinside : Scopes.Inside c d) {params : List (Name × Ty)}
    {next : Unit → Check β α}
    (hnext : ∀ t d', Here ctx start item rest d' t →
      Fits (p.body (params.map (·.1.text))) d'.resolve →
      Tracks ctx start item rest us t R (next () t)) :
    Tracks ctx start item rest us s R ((Analysis.introduceParams params >>= next) s) := by
  refine .bindIn hs (.introduceParams hs.checking params) (.introduceParams params hs.place hinside)
    (.introduceParams params) ?_
  rintro - t ht ⟨d', hd', -, henv⟩ -
  have hfits := hp.params (Local.ofParams params)
  rw [Local.map_text_ofParams] at hfits
  exact hnext t d' (ht d' hd') (henv ▸ hfits)

/-!
## Covers

What comes of a tree mentions declarations, and has names in it that it does not
bind. Both have to come from the tree. A tree that was expanded may have other
names in it than the source it stands in, so this is said only where there is
nothing to expand (`Covers`), and it is said for all parts of a tree at once.
-/

/-- Nothing is covered by anything. -/
theorem Covers.nil {parts : Place → List (Place × Source.Part μ)} :
    Covers parts p [] fun _ => [] :=
  fun _ => ⟨fun _ hx => absurd hx List.not_mem_nil, fun _ _ hx => absurd hx List.not_mem_nil⟩

/-- What came of two trees is covered by the parts of both. -/
theorem Covers.append {parts parts' : Place → List (Place × Source.Part μ)}
    {globals globals' : List String} {loose loose' : List String → List String}
    (h : Covers parts p globals loose) (h' : Covers parts' p globals' loose') :
    Covers (fun p => parts p ++ parts' p) p (globals ++ globals')
      fun bound => loose bound ++ loose' bound := by
  intro hplain
  rw [Source.plainParts_append] at hplain
  obtain ⟨hglobals, hloose⟩ := h hplain.1
  obtain ⟨hglobals', hloose'⟩ := h' hplain.2
  simp only [Source.freeNames_append, List.mem_append]
  exact ⟨fun x hx => hx.imp (hglobals x) (hglobals' x),
    fun q x hx => hx.imp (hloose q x) (hloose' q x)⟩

/-- Nothing comes of an ascription but a type, and of what is written after it
the rest. -/
theorem Covers.append_right {parts parts' : Place → List (Place × Source.Part μ)}
    {globals : List String} {loose : List String → List String}
    (h : Covers parts' p globals loose) :
    Covers (fun p => parts p ++ parts' p) p globals loose := by
  intro hplain
  rw [Source.plainParts_append] at hplain
  obtain ⟨hglobals, hloose⟩ := h hplain.2
  simp only [Source.freeNames_append, List.mem_append]
  exact ⟨fun x hx => .inr (hglobals x hx), fun q x hx => .inr (hloose q x hx)⟩

/-- What came of a body is covered by it, but for the locals that it is
given. -/
theorem Covers.body {parts : Place → List (Place × Source.Part μ)} {globals locals : List String}
    {loose : List String → List String} (h : Covers parts (p.body locals) globals loose) :
    Covers (fun p => parts (p.body locals)) p globals fun bound => loose (locals ++ bound) :=
  fun hplain => ⟨(h hplain).1, fun q => (h hplain).2 (q.body locals)⟩

/-- A name covers itself: the declaration that it refers to is mentioned there,
or it is a local of the place. -/
theorem Covers.var {name : Name} {binding : Binding}
    (h : ∀ y, binding = .global y → y = name.text ∧ name.text ∉ p.bound) :
    Covers (fun p => (Expr.var name : Expr μ).parts p) p
      (Term.Node.globals (.var name.text binding))
      fun bound => Term.Node.loose bound (.var name.text binding) := by
  intro _
  cases binding with
  | global y =>
    obtain ⟨rfl, hfree⟩ := h y rfl
    refine ⟨fun x hx => ?_, fun _ _ hx => absurd hx List.not_mem_nil⟩
    rw [List.mem_singleton.mp hx]
    exact Source.mem_freeNames.mpr ⟨p, name, List.mem_singleton_self _, hfree, rfl⟩
  | lexical l =>
    refine ⟨fun x hx => absurd hx List.not_mem_nil, fun q x hx => ?_⟩
    obtain ⟨rfl, hfree⟩ := Term.mem_filter_not_mem hx
    exact Source.mem_freeNames.mpr ⟨q, name, List.mem_singleton_self _, hfree, rfl⟩

/-- A closure is covered by its body and its ascriptions, but for its
parameters, which are bound in the body. -/
theorem Covers.closure {span : Span} {params : List (Param (Expr μ))} {result : Expr μ}
    {body : Source.Block μ} {params' : List (Name × Ty)} (captures : List String)
    {body' : Term.Block} (hnames : params'.map (·.1.text) = params.map (·.name.text))
    (h : Covers (fun p => body.parts p) (p.body (params.map (·.name.text))) body'.globals
      fun bound => body'.loose bound) :
    Covers (fun p => (Expr.closure span params result body).parts p) p body'.globals fun bound =>
      Term.Node.loose bound
        (.closure (params'.map fun (name, ty) => (name.text, ty)) captures body') := by
  have hbound : (params'.map fun (name, ty) => (name.text, ty)).map (·.1)
      = params.map (·.name.text) := by
    rw [List.map_map]
    exact hnames
  simp only [Term.Node.loose, hbound]
  exact h.body.append_right

/-!
## Trees

Every case has the same form. The steps of the checking are gone through in
order, and to each belongs a part of the tree. The state after it is one where
the names of that part were looked up, and the rest is checked from there. What
the parts of the whole tree are was defined so that they come in this order.
-/

/-- A step that stays in a place has nothing more to say of its result. -/
theorem Proceeds.stays {r : EStateM.Result Halt (State β) α}
    (h : Proceeds ctx s (fun t _ => At c t) r) : Proceeds ctx s (fun t _ => At c t ∧ True) r :=
  h.imp fun _ _ _ ht => ⟨ht, trivial⟩

/-- There is a hint for each element, or none for any. -/
theorem length_elementHints (n : Nat) (hint : Option Ty) : (elementHints n hint).length = n := by
  unfold elementHints
  split
  · split
    · rename_i hlength
      rw [List.length_map, hlength]
    · rw [List.length_replicate]
  · rw [List.length_replicate]
  · rw [List.length_replicate]

section

variable {Site : Place × Source.Part μ → Prop} {demand : String → Check β Ty}
  {expand : Span → μ → Option Ty → Check β Term}

mutual

/-- **Checking an expression** looks up the names in it. -/
theorem infer_tracks {s : State β} {c : Scopes} {p : Place}
    (h : Tends ctx start item rest Site demand expand) (hs : Here ctx start item rest c s)
    (hp : Fits p c.resolve) (e : Expr μ) (hint : Option Ty) (hparts : ∀ q ∈ e.parts p, Site q) :
    Tracks ctx start item rest (freeNames (e.parts p)) s
      (fun t => Covers (fun p => e.parts p) p t.globals fun bound => t.loose bound)
      (infer ctx demand expand e hint s) := by
  cases e with
  | int span n => unfold infer; exact .pure .nil
  | float span x => unfold infer; exact .pure .nil
  | bool span b => unfold infer; exact .pure .nil
  | string span x => unfold infer; exact .pure .nil
  | typeLiteral span ty => unfold infer; exact .pure .nil
  | var name =>
    unfold infer
    refine (typeOf_tracks h.entry h.minds hs hp name).finish ?_
    rintro ⟨binding, ty⟩ t hbinding
    exact .pure (.var hbinding)
  | call span callee arguments =>
    unfold infer
    obtain ⟨hcallee, harguments⟩ := List.forall_mem_append.mp hparts
    rw [Expr.parts, Source.freeNames_append]
    refine .bind hs (infer_follows h.services hs.checking callee none)
      (infer_proceeds h.provides hs.place callee none) (infer_tracks h hs hp callee none hcallee) ?_
    intro callee t ht _ hcallee
    cases callee.ty with
    | fn argument result =>
      refine .reportIf fun hlength => ?_
      refine (inferArguments_tracks h ht hp arguments argument.parameters
        (not_not.mp hlength).symm harguments).finish ?_
      intro arguments u harguments
      exact .pure (hcallee.append harguments)
    | _ => exact .report _
  | tuple span elements =>
    unfold infer
    exact (inferEach_tracks h hs hp elements _ (length_elementHints _ _).symm hparts).finish
      fun elements t helements => .pure helements
  | list span elements =>
    unfold infer
    refine (inferElements_tracks h hs hp elements _ hparts).finish ?_
    rintro ⟨ty, elements⟩ t helements
    exact .pure helements
  | unary span op operand =>
    unfold infer
    refine (infer_tracks h hs hp operand none hparts).finish fun operand t hoperand => ?_
    cases unaryTy op operand.ty with
    | some ty => exact .pure hoperand
    | none => exact .report _
  | binary span op left right =>
    unfold infer
    obtain ⟨hleft, hright⟩ := List.forall_mem_append.mp hparts
    rw [Expr.parts, Source.freeNames_append]
    refine .bind hs (infer_follows h.services hs.checking left none)
      (infer_proceeds h.provides hs.place left none) (infer_tracks h hs hp left none hleft) ?_
    intro left t ht _ hleft
    refine (infer_tracks h ht hp right (some left.ty) hright).finish fun right u hright => ?_
    cases binaryTy op left.ty right.ty with
    | some ty => exact .pure (hleft.append hright)
    | none => exact .report _
  | expand span m =>
    unfold infer
    -- an invocation is not plain, so nothing has to be shown of the term
    have hsite := hparts _ (List.mem_singleton_self (p, Source.Part.invocation m))
    refine (h.expands s c p span m hint hsite hs hp).imp fun t _ hplain => ?_
    exact absurd (List.mem_singleton_self _) (hplain p m)
  | closure span params result body =>
    unfold infer
    rw [Expr.parts] at hparts
    obtain ⟨hhead, hbody⟩ := List.forall_mem_append.mp hparts
    obtain ⟨hparams, hresult⟩ := List.forall_mem_append.mp hhead
    obtain ⟨hsite, hresult⟩ := List.forall_mem_cons.mp hresult
    rw [Expr.parts, Source.freeNames_append, Source.freeNames_append, Source.freeNames_ascription,
      List.append_assoc]
    refine .bind hs (inferParams_follows h.services hs.checking params)
      (inferParams_proceeds h.provides hs.place params).stays
      (inferParams_tracks h hs hp params hparams) ?_
    intro params' t ht _ hnames
    refine .bind ht (ascribed_follows ht.checking fun u hu => infer_follows h.services hu result _)
      (ascribed_proceeds ht.place fun u hu => infer_proceeds h.provides hu result _).stays
      (ascribed_tracks h ht hp hsite fun u hu =>
        infer_tracks h hu hp.ascription result _ hresult) ?_
    intro result' u hu _ _
    -- the body is checked in a scope of its own, where the parameters are bound as in its place
    refine Tracks.finish (R := fun out => Covers (fun p => body.parts p)
        (p.body (params.map (·.name.text))) out.1.globals fun bound => out.1.loose bound)
      (.inScope ?_) ?_
    · refine .introduceParams_bind hu.push hp (Scopes.inside_push c) fun v d hv hfits => ?_
      rw [hnames] at hfits
      refine (checkBlock_tracks h hv hfits body _ hbody).finish fun body w hbody => ?_
      exact .pure hbody
    · rintro ⟨body', captures⟩ v hcovers
      refine .expect_bind fun _ => .pure ?_
      exact .closure captures hnames hcovers
termination_by structural e

/-- The arguments of a call track their names from left to right. That there are
as many as parameters was checked before, and if there were not then some would
not be looked at. -/
theorem inferArguments_tracks {s : State β} {c : Scopes} {p : Place}
    (h : Tends ctx start item rest Site demand expand) (hs : Here ctx start item rest c s)
    (hp : Fits p c.resolve) (es : List (Expr μ)) (ts : List Ty) (hlength : es.length = ts.length)
    (hparts : ∀ q ∈ Source.partsAll p es, Site q) :
    Tracks ctx start item rest (freeNames (Source.partsAll p es)) s
      (fun out => Covers (fun p => Source.partsAll p es) p (Term.globalsAll out)
        fun bound => Term.looseAll bound out)
      (inferArguments ctx demand expand es ts s) := by
  match es, ts with
  | e :: es, ty :: ts =>
    unfold inferArguments
    obtain ⟨he, hes⟩ := List.forall_mem_append.mp hparts
    rw [Source.partsAll, Source.freeNames_append]
    refine .bind hs (infer_follows h.services hs.checking e _)
      (infer_proceeds h.provides hs.place e _) (infer_tracks h hs hp e _ he) ?_
    intro e t ht _ he
    refine .expect_bind fun _ => ?_
    refine (inferArguments_tracks h ht hp es ts (Nat.succ.inj hlength) hes).finish ?_
    intro es u hes
    exact .pure (he.append hes)
  | [], [] =>
    unfold inferArguments
    exact .pure .nil
termination_by structural es

theorem inferEach_tracks {s : State β} {c : Scopes} {p : Place}
    (h : Tends ctx start item rest Site demand expand) (hs : Here ctx start item rest c s)
    (hp : Fits p c.resolve) (es : List (Expr μ)) (hints : List (Option Ty))
    (hlength : es.length = hints.length) (hparts : ∀ q ∈ Source.partsAll p es, Site q) :
    Tracks ctx start item rest (freeNames (Source.partsAll p es)) s
      (fun out => Covers (fun p => Source.partsAll p es) p (Term.globalsAll out)
        fun bound => Term.looseAll bound out)
      (inferEach ctx demand expand es hints s) := by
  match es, hints with
  | e :: es, hint :: hints =>
    unfold inferEach
    obtain ⟨he, hes⟩ := List.forall_mem_append.mp hparts
    rw [Source.partsAll, Source.freeNames_append]
    refine .bind hs (infer_follows h.services hs.checking e _)
      (infer_proceeds h.provides hs.place e _) (infer_tracks h hs hp e _ he) ?_
    intro e t ht _ he
    refine (inferEach_tracks h ht hp es hints (Nat.succ.inj hlength) hes).finish ?_
    intro es u hes
    exact .pure (he.append hes)
  | [], [] =>
    unfold inferEach
    exact .pure .nil
termination_by structural es

/-- The elements of a list track their names, one after the other. -/
theorem inferElements_tracks {s : State β} {c : Scopes} {p : Place}
    (h : Tends ctx start item rest Site demand expand) (hs : Here ctx start item rest c s)
    (hp : Fits p c.resolve) (es : List (Expr μ)) (ty : Option Ty)
    (hparts : ∀ q ∈ Source.partsAll p es, Site q) :
    Tracks ctx start item rest (freeNames (Source.partsAll p es)) s
      (fun out => Covers (fun p => Source.partsAll p es) p (Term.globalsAll out.2)
        fun bound => Term.looseAll bound out.2)
      (inferElements ctx demand expand es ty s) := by
  match es, ty with
  | [], ty =>
    unfold inferElements
    exact .pure .nil
  | e :: es, none =>
    unfold inferElements
    obtain ⟨he, hes⟩ := List.forall_mem_append.mp hparts
    rw [Source.partsAll, Source.freeNames_append]
    refine .bind hs (infer_follows h.services hs.checking e _)
      (infer_proceeds h.provides hs.place e _) (infer_tracks h hs hp e _ he) ?_
    intro e t ht _ he
    refine (inferElements_tracks h ht hp es _ hes).finish ?_
    rintro ⟨ty, es⟩ u hes
    exact .pure (he.append hes)
  | e :: es, some ty =>
    unfold inferElements
    obtain ⟨he, hes⟩ := List.forall_mem_append.mp hparts
    rw [Source.partsAll, Source.freeNames_append]
    refine .bind hs (infer_follows h.services hs.checking e _)
      (infer_proceeds h.provides hs.place e _) (infer_tracks h hs hp e _ he) ?_
    intro e t ht _ he
    refine .expect_bind fun _ => ?_
    refine (inferElements_tracks h ht hp es _ hes).finish ?_
    rintro ⟨ty, es⟩ u hes
    exact .pure (he.append hes)
termination_by structural es

/-- Parameters are ascribed in the place around the closure, and keep their
names. -/
theorem inferParams_tracks {s : State β} {c : Scopes} {p : Place}
    (h : Tends ctx start item rest Site demand expand) (hs : Here ctx start item rest c s)
    (hp : Fits p c.resolve) (ps : List (Param (Expr μ)))
    (hparts : ∀ q ∈ Source.partsParams p ps, Site q) :
    Tracks ctx start item rest (freeNames (Source.partsParams p ps)) s
      (fun out => out.map (·.1.text) = ps.map (·.name.text))
      (inferParams ctx demand expand ps s) := by
  match ps with
  | [] => unfold inferParams; exact .pure rfl
  | ⟨name, a⟩ :: ps =>
    unfold inferParams
    obtain ⟨ha, hps⟩ := List.forall_mem_append.mp hparts
    obtain ⟨hsite, ha⟩ := List.forall_mem_cons.mp ha
    rw [Source.partsParams, Source.freeNames_append, Source.freeNames_ascription]
    refine .bind hs (ascribed_follows hs.checking fun u hu => infer_follows h.services hu a _)
      (ascribed_proceeds hs.place fun u hu => infer_proceeds h.provides hu a _).stays
      (ascribed_tracks h hs hp hsite fun u hu => infer_tracks h hu hp.ascription a _ ha) ?_
    intro ty t ht _ _
    refine (inferParams_tracks h ht hp ps hps).finish fun out u hout => .pure ?_
    rw [List.map_cons, List.map_cons, hout]
termination_by structural ps

/-- **Checking a block** looks up the names in it. -/
theorem checkBlock_tracks {s : State β} {c : Scopes} {p : Place}
    (h : Tends ctx start item rest Site demand expand) (hs : Here ctx start item rest c s)
    (hp : Fits p c.resolve) (b : Source.Block μ) (hint : Option Ty)
    (hparts : ∀ q ∈ b.parts p, Site q) :
    Tracks ctx start item rest (freeNames (b.parts p)) s
      (fun out => Covers (fun p => b.parts p) p out.globals fun bound => out.loose bound)
      (checkBlock ctx demand expand b hint s) := by
  match b with
  | ⟨span, stmts⟩ =>
    unfold checkBlock
    refine Tracks.finish (.inScope ?_) fun stmts t hstmts => .pure hstmts
    exact checkStmts_tracks h hs.push hp (Scopes.inside_push c) stmts hint hparts
termination_by structural b

/-- **Statements track the names in them.** What a statement introduces is bound
in the places of those after it, and so the place moves on with each of them,
along with the scopes. -/
theorem checkStmts_tracks {s : State β} {c d : Scopes} {p : Place}
    (h : Tends ctx start item rest Site demand expand) (hs : Here ctx start item rest d s)
    (hp : Fits p d.resolve) (hinside : Scopes.Inside c d) (stmts : List (Stmt μ))
    (hint : Option Ty) (hparts : ∀ q ∈ Source.partsStmts p stmts, Site q) :
    Tracks ctx start item rest (freeNames (Source.partsStmts p stmts)) s
      (fun out => Covers (fun p => Source.partsStmts p stmts) p (Term.globalsStmts out)
        fun bound => Term.looseStmts bound out)
      (checkStmts ctx demand expand stmts hint s) := by
  match stmts with
  | [] => unfold checkStmts; exact .pure .nil
  | stmt :: stmts =>
    unfold checkStmts
    obtain ⟨hstmt, hstmts⟩ := List.forall_mem_append.mp hparts
    rw [Source.partsStmts, Source.freeNames_append]
    refine .bind hs (checkStmt_follows h.services hs.checking stmt _)
      (checkStmt_proceeds h.provides hs.place stmt _)
      (checkStmt_tracks h hs hp.body stmt _ hstmt) ?_
    rintro out t ht - ⟨hlocals, hout⟩
    -- the rest is checked with what the statement has introduced
    have hrest (u : State β) (d' : Scopes) (hu : Here ctx start item rest d' u)
        (hinside' : Scopes.Inside c d') (hfits : Fits (p.body stmt.locals) d'.resolve) :
        Tracks ctx start item rest (freeNames (Source.partsStmts (p.body stmt.locals) stmts)) u
          (fun out => Covers (fun p => Source.partsStmts p (stmt :: stmts)) p
            (Term.globalsStmts out) fun bound => Term.looseStmts bound out)
          ((checkStmts ctx demand expand stmts hint >>= fun rest => pure (out :: rest)) u) := by
      refine (checkStmts_tracks h hu hfits hinside' stmts hint hstmts).finish ?_
      intro stmts' v hstmts'
      refine .pure ?_
      rw [Term.globalsStmts_cons]
      simp only [Term.looseStmts, hlocals]
      exact hout.body.append hstmts'.body
    cases out with
    | bind span name ty body =>
      rw [← show [name.text] = stmt.locals from hlocals] at hrest ⊢
      exact .introduce_bind ht hp hinside fun u d' hu hinside' hfits =>
        hrest u d' hu hinside' hfits
    | _ =>
      rw [← show [] = stmt.locals from hlocals] at hrest ⊢
      exact hrest t d ht hinside hp.body
termination_by structural stmts

/-- **A statement tracks the names in it**, and introduces the same locals in
the term as it does in the source. -/
theorem checkStmt_tracks {s : State β} {c : Scopes} {p : Place}
    (h : Tends ctx start item rest Site demand expand) (hs : Here ctx start item rest c s)
    (hp : Fits p c.resolve) (stmt : Stmt μ) (hint : Option Ty)
    (hparts : ∀ q ∈ stmt.parts p, Site q) :
    Tracks ctx start item rest (freeNames (stmt.parts p)) s
      (fun out => out.locals = stmt.locals ∧
        Covers (fun p => stmt.parts p) p (Term.globalsStmts [out]) fun bound => out.loose bound)
      (checkStmt ctx demand expand stmt hint s) := by
  match stmt with
  | .bind span name a body =>
    unfold checkStmt
    obtain ⟨ha, hbody⟩ := List.forall_mem_append.mp hparts
    obtain ⟨hsite, ha⟩ := List.forall_mem_cons.mp ha
    rw [Stmt.parts, Source.freeNames_append, Source.freeNames_ascription]
    refine .bind hs (ascribed_follows hs.checking fun u hu => infer_follows h.services hu a _)
      (ascribed_proceeds hs.place fun u hu => infer_proceeds h.provides hu a _).stays
      (ascribed_tracks h hs hp hsite fun u hu => infer_tracks h hu hp.ascription a _ ha) ?_
    intro ty t ht _ _
    refine (checkBlock_tracks h ht hp body _ hbody).finish fun body' u hbody' => ?_
    refine .expect_bind fun _ => .pure ⟨rfl, ?_⟩
    rw [Term.globalsStmts, Term.globalsStmts, List.append_nil]
    exact hbody'.append_right
  | .assign span target op body =>
    unfold checkStmt
    obtain ⟨-, hbody⟩ := List.forall_mem_cons.mp hparts
    rw [Stmt.parts, ← List.singleton_append, Source.freeNames_append]
    refine .bind hs (typeOf_follows h.services.answers hs.checking target)
      (typeOf_proceeds h.provides.demands hs.place target)
      (typeOf_tracks h.entry h.minds hs hp target) ?_
    -- only what may be assigned to gets any further
    rintro ⟨binding, ty⟩ t ht - hbinding
    match binding with
    | .lexical ⟨name, .assignable, lty⟩ =>
      refine (checkBlock_tracks h ht hp body (some ty) hbody).finish fun body' u hbody' => ?_
      have hlast : Tracks ctx start item rest [] u
          (fun out => out.locals = (Stmt.assign span target op body).locals ∧
            Covers (fun p => (Stmt.assign span target op body).parts p) p
              (Term.globalsStmts [out]) fun bound => out.loose bound)
          ((expect .assignment ty body'.ty body'.resultSpan >>= fun _ =>
            pure (Term.Stmt.assign span target.text op body')) u) := by
        refine .expect_bind fun _ => .pure ⟨rfl, ?_⟩
        rw [Term.globalsStmts, Term.globalsStmts, List.append_nil]
        exact (Covers.var hbinding).append hbody'
      cases op.binary? with
      | some binary => exact .reportIf fun _ => hlast
      | none => exact hlast
    | .lexical ⟨_, .parameter, _⟩ => exact .report_bind _ _
    | .global _ => exact .report_bind _ _
  | .branch span condition yes no =>
    unfold checkStmt
    obtain ⟨hhead, hno⟩ := List.forall_mem_append.mp hparts
    obtain ⟨hcondition, hyes⟩ := List.forall_mem_append.mp hhead
    rw [Stmt.parts, Source.freeNames_append, Source.freeNames_append, List.append_assoc]
    refine .bind hs (infer_follows h.services hs.checking condition _)
      (infer_proceeds h.provides hs.place condition _)
      (infer_tracks h hs hp condition _ hcondition) ?_
    intro condition' t ht _ hcondition'
    refine .reportIf fun _ => ?_
    refine .bind ht (checkBlock_follows h.services ht.checking yes _)
      (checkBlock_proceeds h.provides ht.place yes _) (checkBlock_tracks h ht hp yes _ hyes) ?_
    intro yes' u hu _ hyes'
    refine (checkBlock_tracks h hu hp no _ hno).finish fun no' v hno' => ?_
    refine .reportIf fun _ => .pure ⟨rfl, ?_⟩
    rw [Term.globalsStmts, Term.globalsStmts, List.append_nil]
    exact (hcondition'.append hyes').append hno'
  | .eval e =>
    unfold checkStmt
    refine (infer_tracks h hs hp e hint hparts).finish fun e' t he' => .pure ⟨rfl, ?_⟩
    rw [Term.globalsStmts, Term.globalsStmts, List.append_nil]
    exact he'
termination_by structural stmt

end

end

end Stagewise.Analysis
