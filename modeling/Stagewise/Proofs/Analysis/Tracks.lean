import Stagewise.Proofs.Analysis.References
import Stagewise.Proofs.Analysis.Settle
import Stagewise.Proofs.Analysis.Soundness
import Stagewise.Proofs.Source.Parts
import Stagewise.Proofs.Term.Loose

/-!
# What a declaration does by itself

While a declaration is checked, others are checked in between, and what all of
them do ends up in one state. Two things can still be told apart. The names that
were looked up are kept along with the declaration that asked (`lookups`). And a
request to have something evaluated comes from a part of the declaration at
hand, an ascription or an invocation, and was made in a state from which the
rest of the analysis can be told (`Placed`).

A step **tracks** some names if these are what the declaration at hand looks up
in it, in this order, or the first of them if it halts (`Tracks`). Nobody else
who is under analysis looks up anything meanwhile, and every request that is
made has its place. The rules follow the operations of steps. What a sequence
needs to know of the state between its steps is known from elsewhere: `Follows`
tells that the books are in order, `Proceeds` where the analysis is.
-/

namespace Stagewise.Analysis

open Source (Expr Item Invocation Place PlainParts freeNames)

variable {β α γ μ : Type} {ctx : Context β} {start s t u : State β} {c : Scopes} {item : Item}
  {rest us us' : List String} {p : Place} {x : String}

/-! ## Lookups -/

/-- **The top-level names that were looked up inside a declaration**, in
order. -/
def lookups (rs : List Resolution) (x : String) : List String :=
  ((Compile.references rs).filter (·.1 = x)).map (·.2)

/-- A lookup of a declaration is counted at the end. -/
theorem lookups_append_global {rs : List Resolution} {name y : String} :
    lookups (rs ++ [⟨some x, name, .global y⟩]) x = lookups rs x ++ [name] := by
  simp [lookups, Compile.references]

/-- One of a local is not counted. -/
theorem lookups_append_lexical {rs : List Resolution} {inside : Option String} {name : String}
    {l : Local} : lookups (rs ++ [⟨inside, name, .lexical l⟩]) x = lookups rs x := by
  simp [lookups, Compile.references]

/-- Nor is one that somebody else makes. -/
theorem lookups_append_of_ne {rs : List Resolution} {inside : Option String} {name : String}
    {binding : Binding} (h : inside ≠ some x) :
    lookups (rs ++ [⟨inside, name, binding⟩]) x = lookups rs x := by
  cases binding with
  | lexical l => exact lookups_append_lexical
  | global y =>
    cases inside with
    | none => simp [lookups, Compile.references]
    | some d =>
      have hne : d ≠ x := fun hd => h (congrArg some hd)
      simp [lookups, Compile.references, hne]

/-- Who refers to nothing has looked up nothing. -/
theorem lookups_eq_nil {rs : List Resolution} (h : ∀ y, ¬Refers rs x y) : lookups rs x = [] := by
  unfold lookups
  rw [List.map_eq_nil_iff, List.filter_eq_nil_iff]
  rintro ⟨d, y⟩ hd
  rw [decide_eq_true_eq]
  rintro rfl
  exact h y hd

/-- **Whoever looked up something was entered.** -/
def Entered (s : State β) : Prop :=
  ∀ x y, Refers s.resolutions x y → x ∈ s.active ∨ x ∈ s.defined ∨ x ∈ s.failed

/-- Whoever looks up something is under analysis. -/
theorem Entered.resolve (h : Entered s) (name : String) (binding : Binding) :
    Entered (s.resolve name binding) := by
  intro x y hxy
  obtain hxy | ⟨top, -, -⟩ := refers_append hxy
  · exact h x y hxy
  · exact .inl (List.mem_of_mem_head? top)

/-- A declaration that is left was defined or refused. -/
theorem Entered.leave (h : Entered s) (top : s.active.head? = some x)
    (hactive : t.active = s.active.tail) (hresolutions : t.resolutions = s.resolutions)
    (hdefined : s.defined ⊆ t.defined) (hfailed : s.failed ⊆ t.failed)
    (hx : x ∈ t.defined ∨ x ∈ t.failed) : Entered t := by
  intro y z hyz
  rw [hresolutions] at hyz
  obtain hy | hy | hy := h y z hyz
  · by_cases hne : y = x
    · exact .inr (hne ▸ hx)
    · exact .inl (hactive ▸ (mem_tail_of_ne top hne).mpr hy)
  · exact .inr (.inl (hdefined hy))
  · exact .inr (.inr (hfailed hy))

/-- **Whoever looked up something was entered**, all along a course: names are
looked up by the declaration at the top of the stack, and nobody leaves the
stack but by being defined or refused. -/
theorem Entered.act (h : Entered s) (hact : Act ctx s t) : Entered t := by
  cases hact with
  | move scopes inAscription faithful => exact h
  | resolve known => exact h.resolve _ _
  | fold => exact h
  | evaluate due accepted => exact h
  | expand due accepted answer => exact h
  | reuse => exact h
  | @enter u d summons entry phase =>
    have hu : Entered u := by
      cases summons with
      | unbidden idle => exact h
      | lookup => exact h.resolve _ _
    exact fun x y hxy => (hu x y hxy).imp_left (List.mem_cons_of_mem _)
  | declare entry about due publishes accepted => exact h
  | @define d subject text ty v entry about due learns accepted =>
    obtain - | ⟨top, about', -, -, -⟩ := due
    obtain rfl := Option.some.inj (about.symm.trans about')
    exact h.leave top rfl rfl (List.subset_append_left _ _) (List.Subset.refl _)
      (.inl (List.mem_append_right _ (List.mem_singleton_self _)))
  | @refuse u y top refusal =>
    have hlast : y ∈ u.failed ++ [y] := List.mem_append_right _ (List.mem_singleton_self _)
    cases refusal
    all_goals
      exact h.leave top rfl rfl (List.Subset.refl _) (List.subset_append_left _ _) (.inr hlast)

theorem Entered.course (h : Entered s) (hc : Course ctx s t) : Entered t := by
  induction hc with
  | refl => exact h
  | tail _ hact ih => exact ih.act hact

/-- An untouched declaration has looked up nothing. -/
theorem Entered.lookups_eq_nil (h : Entered s) (phase : Standing ctx s x .untouched) :
    lookups s.resolutions x = [] := by
  refine Analysis.lookups_eq_nil fun y hy => ?_
  obtain hx | hx | hx := h x y hy
  · cases phase.active.mp hx
  · cases phase.defined.mp hx
  · cases phase.failed.mp hx

/-! ## Places -/

/-- **A place in the source fits an environment**: the locals in scope are the
locals of the environment, under their own names, and other names refer to
declarations of the same name. -/
structure Fits (p : Place) (E : Env) : Prop where
  locals : ∀ x, x ∈ p.bound ↔ E.IsLocal x
  named : ∀ x l, E x = some (.lexical l) → l.name.text = x
  globals : ∀ x y, E x = some (.global y) → y = x

namespace Fits

variable {E : Env}

theorem ascription (h : Fits p E) : Fits p.ascription E :=
  ⟨h.locals, h.named, h.globals⟩

/-- A local that is introduced is in scope by its own name, in the source and in
the scopes. -/
theorem bind (h : Fits p E) (l : Local) : Fits (p.body [l.name.text]) (E.bind l) where
  locals x := by
    by_cases hx : x = l.name.text
    · exact iff_of_true (List.mem_append_left _ (List.mem_singleton.mpr hx)) ⟨l, if_pos hx⟩
    · rw [Place.bound_body, List.singleton_append, List.mem_cons, or_iff_right hx, h.locals,
        Env.IsLocal, Env.IsLocal, Env.bind_of_ne hx]
  named x l' hl' := by
    by_cases hx : x = l.name.text
    · rw [Env.bind, if_pos hx] at hl'
      cases hl'
      exact hx.symm
    · exact h.named x l' ((Env.bind_of_ne hx).symm.trans hl')
  globals x y hxy := by
    by_cases hx : x = l.name.text
    · rw [Env.bind, if_pos hx] at hxy
      cases hxy
    · exact h.globals x y ((Env.bind_of_ne hx).symm.trans hxy)

/-- Places fit the same environments if the same locals are in scope. -/
theorem of_same {q : Place} (h : Fits p E) (hbound : ∀ x, x ∈ q.bound ↔ x ∈ p.bound) :
    Fits q E := ⟨fun x => (hbound x).trans (h.locals x), h.named, h.globals⟩

theorem body (h : Fits p E) : Fits (p.body []) E := h.of_same fun _ => .rfl

/-- So are parameters, one after the other. -/
theorem params (h : Fits p E) (ls : List Local) :
    Fits (p.body (ls.map (·.name.text))) (ls.foldl Env.bind E) := by
  induction ls generalizing p E with
  | nil => exact h.body
  | cons l ls ih =>
    refine (ih (h.bind l)).of_same fun x => ?_
    simp only [Place.bound_body, List.map_cons, List.cons_append, List.nil_append, List.mem_cons,
      List.mem_append]
    exact or_left_comm

end Fits

/-!
## Requests

To say where a request comes from is to name a state of the analysis, a
declaration that was at hand in it, and a part of the source of that declaration
(`Asks`, `Sited`). The state is not the one at the end. But what was looked up
and refused in it is the beginning of what was in the end (`Later`), so that
statements about it can be read off the end. The constructors of `Sited` hold
all that the analysis knows of the part when it makes the request.
-/

/-- **A declaration is at hand** in a state that a course has led to. -/
structure Turn (ctx : Context β) (start : State β) (item : Item) (u : State β) : Prop where
  course : Course ctx start u
  entry : .source item ∈ ctx.declarations.entries
  top : u.active.head? = some item.name.text

/-- **Parts cover what came of them**: if there is nothing to expand, then every
declaration in it is named in the parts, and so is every local that is loose in
it, whatever is bound around. -/
def Covers (parts : Place → List (Place × Source.Part μ)) (p : Place) (globals : List String)
    (loose : List String → List String) : Prop :=
  PlainParts (parts p) → (∀ x ∈ globals, x ∈ freeNames (parts p)) ∧
    ∀ (q : Place), ∀ x ∈ loose q.bound, x ∈ freeNames (parts q)

/-- **A state is later than another**, as far as lookups and refusals tell. -/
structure Later (u s : State β) : Prop where
  resolutions : u.resolutions <+: s.resolutions
  failed : u.failed <+: s.failed

theorem Later.refl (s : State β) : Later s s := ⟨List.prefix_rfl, List.prefix_rfl⟩

/-- Later than later is later. -/
theorem Later.trans (h : Later s t) (h' : Later t u) : Later s u :=
  ⟨h.resolutions.trans h'.resolutions, h.failed.trans h'.failed⟩

/-- **A declaration asks** in a state that `s` is later than, when `before` is
what was said. -/
structure Asks (ctx : Context β) (start s : State β) (before : List Exchange) (item : Item)
    (u : State β) : Prop where
  turn : Turn ctx start item u
  said : u.transcript = before
  later : Later u s

/-- **An ascription was checked** and is to be evaluated: the term that came of
it is a type and could not be folded. -/
structure Ascribed (ctx : Context β) (a : Expr Invocation) (t : Term) (u : State β) : Prop where
  type : t.ty = .type
  checked : ∃ depth v w, inAscription (inferWithin ctx depth a (some .type)) v = .ok t w ∧
    (ctx.options.fold = true → Fold.term w.values t = none) ∧ u = w.folding t none

/-- **An expander was looked up** and is to be run. -/
def LookedUp (ctx : Context β) (name : Name) (binding : Binding) (u : State β) : Prop :=
  ∃ depth v, typeOf (demandWith ctx (analyzeWithin ctx depth)) name v = .ok (binding, .expander) u

/-- **A request to evaluate something has its place** in a declaration: it comes
from one of its ascriptions or invocations, and is made in the state in which
that has been checked. -/
inductive Sited (ctx : Context β) (item : Item) (u : State β) : Exchange → Prop where
  /-- An ascription is evaluated. What it refers to is defined, and what is
  loose in it is in scope where it is written. -/
  | ascription {p : Place} {a : Expr Invocation} {t : Term} {accepted : Bool}
    (site : (p, .ascription a) ∈ item.parts) (ascribed : Ascribed ctx a t u)
    (defined : ∀ x ∈ t.globals, x ∈ u.defined)
    (known : ∀ x ∈ t.globals, Refers u.resolutions item.name.text x)
    (within : ∀ x ∈ t.loose [], x ∈ p.bound)
    (covers : Covers (fun p => a.parts p) p.ascription t.globals fun bound => t.loose bound) :
    Sited ctx item u ⟨.evaluate, t.lower.text, .term t, accepted⟩
  /-- An expander is run. It is the local of its name if there is one in scope
  where it is invoked, and otherwise the declaration of its name, which is
  defined. -/
  | invocation {p : Place} {m : Invocation} {binding : Binding} {expected : Ty} {accepted : Bool}
    (site : (p, .invocation m) ∈ item.parts) (lookedUp : LookedUp ctx m.expander binding u)
    (hidden : m.expander.text ∈ p.bound →
      ∃ l, binding = .lexical l ∧ l.name.text = m.expander.text)
    (visible : m.expander.text ∉ p.bound →
      binding = .global m.expander.text ∧ m.expander.text ∈ u.defined)
    (known : ∀ x, binding = .global x → Refers u.resolutions item.name.text x) :
    Sited ctx item u ⟨.evaluate, expansionText m expected, .expansion binding, accepted⟩

/-- **A request has its place** in a declaration that asks. -/
def Placed (ctx : Context β) (start s : State β) (before : List Exchange) (e : Exchange) : Prop :=
  ∃ item u, Asks ctx start s before item u ∧ Sited ctx item u e

/-- A request that had its place when it was made still has it. -/
theorem Placed.later {before : List Exchange} {e : Exchange} (h : Placed ctx start s before e)
    (hst : Later s t) : Placed ctx start t before e := by
  obtain ⟨item, u, ⟨turn, said, later⟩, sited⟩ := h
  exact ⟨item, u, ⟨turn, said, later.trans hst⟩, sited⟩

/-- **All requests to evaluate something have their places.** -/
def Attended (ctx : Context β) (start s : State β) : Prop :=
  ∀ before e after, s.transcript = before ++ e :: after → e.kind = .evaluate →
    Placed ctx start s before e

/-- All requests keep their places when nothing more is said. -/
theorem Attended.later (h : Attended ctx start s) (hst : Later s t)
    (htranscript : t.transcript = s.transcript) : Attended ctx start t := by
  intro before e after hsplit hkind
  rw [htranscript] at hsplit
  exact (h before e after hsplit hkind).later hst

/-- **One more request has its place** if it needs one. -/
theorem Attended.append {e : Exchange} (h : Attended ctx start s)
    (he : e.kind = .evaluate → Placed ctx start s s.transcript e) (hst : Later s t)
    (htranscript : t.transcript = s.transcript ++ [e]) : Attended ctx start t := by
  intro before e' after hsplit hkind
  rw [htranscript] at hsplit
  exact (forall_split_append h he before e' after hsplit hkind).later hst

/-! ## Tallies -/

/-- **The lookups of a declaration agree with its source**: they are the names
that are mentioned in it, or the first of them, and all once it is defined.
Nothing is said of declarations with text to expand. -/
structure Tallied (s : State β) (item : Item) : Prop where
  le : PlainParts item.parts → lookups s.resolutions item.name.text <+: freeNames item.parts
  eq : PlainParts item.parts → item.name.text ∈ s.defined →
    lookups s.resolutions item.name.text = freeNames item.parts

/-- The lookups of a declaration to which nothing happened still agree. -/
theorem Tallied.of_same (h : Tallied s item)
    (hlookups : lookups t.resolutions item.name.text = lookups s.resolutions item.name.text)
    (hdefined : item.name.text ∈ t.defined → item.name.text ∈ s.defined) : Tallied t item where
  le hplain := hlookups ▸ h.le hplain
  eq hplain hx := hlookups ▸ h.eq hplain (hdefined hx)

/-- **A name has a source**: it is not the name of a built-in. -/
def HasSource (ctx : Context β) (x : String) : Prop :=
  ∃ item, .source item ∈ ctx.declarations.entries ∧ item.name.text = x

/-- **Something goes on aside**: those that are kept look up nothing and are not
defined, others that are not open end up with lookups that agree with their
source, and requests have their places. Names without a source look up nothing
in any case. -/
structure Aside (ctx : Context β) (start : State β) (kept opened : List String) (s t : State β) :
    Prop where
  requests : Attended ctx start s → Attended ctx start t
  lookups : ∀ x ∈ kept, lookups t.resolutions x = lookups s.resolutions x
  undefined : ∀ x ∈ kept, x ∈ t.defined → x ∈ s.defined
  tallied : ∀ item, .source item ∈ ctx.declarations.entries → item.name.text ∉ opened →
    Tallied s item → Tallied t item
  silent : ∀ x, ¬HasSource ctx x →
    Analysis.lookups t.resolutions x = Analysis.lookups s.resolutions x

namespace Aside

variable {kept opened : List String}

/-- What goes on aside and goes on aside again is aside. A declaration that
agrees with its source in between is not opened again, so nothing happens to
it. -/
theorem trans (h : Aside ctx start kept opened s t) (h' : Aside ctx start kept opened t u) :
    Aside ctx start kept opened s u where
  requests ha := h'.requests (h.requests ha)
  lookups x hx := (h'.lookups x hx).trans (h.lookups x hx)
  undefined x hx hu := h.undefined x hx (h'.undefined x hx hu)
  tallied item entry hout hs := h'.tallied item entry hout (h.tallied item entry hout hs)
  silent x hx := (h'.silent x hx).trans (h.silent x hx)

/-- Nothing goes on but that somebody may be refused. -/
theorem refuse (hresolutions : t.resolutions = s.resolutions) (hdefined : t.defined = s.defined)
    (htranscript : t.transcript = s.transcript) (hfailed : s.failed <+: t.failed) :
    Aside ctx start kept opened s t where
  requests ha := ha.later ⟨hresolutions ▸ List.prefix_rfl, hfailed⟩ htranscript
  lookups x _ := by rw [hresolutions]
  undefined x _ hx := hdefined ▸ hx
  tallied item _ _ hs := hs.of_same (by rw [hresolutions]) fun hx => hdefined ▸ hx
  silent x _ := by rw [hresolutions]

/-- Nothing goes on as far as lookups, definitions, requests and refusals are
concerned. -/
theorem of_same (hresolutions : t.resolutions = s.resolutions) (hdefined : t.defined = s.defined)
    (htranscript : t.transcript = s.transcript) (hfailed : t.failed = s.failed) :
    Aside ctx start kept opened s t :=
  refuse hresolutions hdefined htranscript (hfailed ▸ List.prefix_rfl)

theorem refl (s : State β) : Aside ctx start kept opened s s := of_same rfl rfl rfl rfl

/-- A request is made that has its place, if it needs one. -/
theorem request {e : Exchange} (hresolutions : t.resolutions = s.resolutions)
    (hdefined : t.defined = s.defined) (htranscript : t.transcript = s.transcript ++ [e])
    (hfailed : t.failed = s.failed)
    (he : e.kind = .evaluate → Placed ctx start s s.transcript e) :
    Aside ctx start kept opened s t where
  requests ha :=
    ha.append he ⟨hresolutions ▸ List.prefix_rfl, hfailed ▸ List.prefix_rfl⟩ htranscript
  lookups x _ := by rw [hresolutions]
  undefined x _ hx := hdefined ▸ hx
  tallied item _ _ hs := hs.of_same (by rw [hresolutions]) fun hx => hdefined ▸ hx
  silent x _ := by rw [hresolutions]

end Aside

/-- **The declaration at hand has looked up some names**, and what went on
besides is aside. -/
structure Tracked (ctx : Context β) (start : State β) (item : Item) (rest us : List String)
    (s t : State β) : Prop where
  aside : Aside ctx start rest (item.name.text :: rest) s t
  hand : PlainParts item.parts →
    lookups t.resolutions item.name.text = lookups s.resolutions item.name.text ++ us
  undefined : item.name.text ∈ t.defined → item.name.text ∈ s.defined

namespace Tracked

/-- **What is looked up in two steps** is what is looked up in the first and
then what is looked up in the second. -/
theorem trans (h : Tracked ctx start item rest us s t) (h' : Tracked ctx start item rest us' t u) :
    Tracked ctx start item rest (us ++ us') s u where
  aside := h.aside.trans h'.aside
  hand hplain := by rw [h'.hand hplain, h.hand hplain, List.append_assoc]
  undefined hu := h.undefined (h'.undefined hu)

/-- Nothing was looked up, and nothing was said. -/
theorem of_same (hresolutions : t.resolutions = s.resolutions) (hdefined : t.defined = s.defined)
    (htranscript : t.transcript = s.transcript) (hfailed : t.failed = s.failed) :
    Tracked ctx start item rest [] s t where
  aside := .of_same hresolutions hdefined htranscript hfailed
  hand _ := by rw [hresolutions, List.append_nil]
  undefined hx := hdefined ▸ hx

theorem refl (s : State β) : Tracked ctx start item rest [] s s := of_same rfl rfl rfl rfl

/-- What changes is of no account before and after. -/
theorem congr (h : Tracked ctx start item rest us s t) {s' t' : State β}
    (hs : Tracked ctx start item rest [] s' s) (ht : Tracked ctx start item rest [] t t') :
    Tracked ctx start item rest us s' t' := by
  simpa using (hs.trans h).trans ht

/-- A request is made that has its place, if it needs one. -/
theorem request {e : Exchange} (hresolutions : t.resolutions = s.resolutions)
    (hdefined : t.defined = s.defined) (htranscript : t.transcript = s.transcript ++ [e])
    (hfailed : t.failed = s.failed)
    (he : e.kind = .evaluate → Placed ctx start s s.transcript e) :
    Tracked ctx start item rest [] s t where
  aside := .request hresolutions hdefined htranscript hfailed he
  hand _ := by rw [hresolutions, List.append_nil]
  undefined hx := hdefined ▸ hx

end Tracked

/-!
## Steps

A step that halts has looked up the first of its names only. So `Tracks`
distinguishes the ways a step can end: if it succeeds then the names are exactly
what was looked up, and otherwise they begin with it. For a sequence that is all
there is to do: if the first step halts then its names are followed by those of
the second, and the names so far are the first of all.
-/

/-- **A step tracks names**, and if it succeeds then its result has a
property. -/
def Tracks (ctx : Context β) (start : State β) (item : Item) (rest us : List String) (s : State β)
    (R : α → Prop) : EStateM.Result Halt (State β) α → Prop
  | .ok a t => Tracked ctx start item rest us s t ∧ R a
  | .error _ t => ∃ us', us' <+: us ∧ Tracked ctx start item rest us' s t

/-- **The analysis is in a place of the declaration at hand**, with its books in
order. -/
structure Here (ctx : Context β) (start : State β) (item : Item) (rest : List String) (c : Scopes)
    (s : State β) : Prop where
  course : Course ctx start s
  checking : Checking ctx (item.name.text :: rest) s
  place : At c s

/-- What is known after a step, where `Follows` and `Proceeds` tell of it. -/
theorem Here.step {F G : State β → α → Prop} (hs : Here ctx start item rest c s) {step : Check β α}
    (hfollows : Follows ctx (item.name.text :: rest) (item.name.text :: rest) s F (step s))
    (hproceeds : Proceeds ctx s G (step s)) {a : α} (hstep : step s = .ok a t) :
    (∀ d, At d t → Here ctx start item rest d t) ∧ F t a ∧ G t a := by
  have hG := (hproceeds.of_eq_ok hstep).2
  rw [hstep] at hfollows
  refine ⟨fun d hd => ?_, hfollows.2, hG⟩
  exact ⟨hs.course.trans hfollows.1.course, hfollows.1.checking hs.checking.book, hd⟩

namespace Tracks

variable {R : α → Prop} {R' : γ → Prop}

/-- What is said of a result may be weakened. -/
theorem imp {R' : α → Prop} {r : EStateM.Result Halt (State β) α}
    (h : Tracks ctx start item rest us s R r) (hR : ∀ a, R a → R' a) :
    Tracks ctx start item rest us s R' r := by
  cases r with
  | ok a t => exact ⟨h.1, hR a h.2⟩
  | error e t => exact h

/-- A step from a state further on is a step from here. -/
theorem after {r : EStateM.Result Halt (State β) α} (hst : Tracked ctx start item rest us s t)
    (h : Tracks ctx start item rest us' t R r) :
    Tracks ctx start item rest (us ++ us') s R r := by
  cases r with
  | ok a u => exact ⟨hst.trans h.1, h.2⟩
  | error e u =>
    obtain ⟨us'', hle, hu⟩ := h
    exact ⟨us ++ us'', (List.prefix_append_right_inj us).mpr hle, hst.trans hu⟩

/-- **Any sequence**: what its second step looks up comes after what the first
does. -/
theorem seq {step : Check β α} {next : α → Check β γ}
    (h : Tracks ctx start item rest us s R (step s))
    (hnext : ∀ a t, step s = .ok a t → R a →
      Tracks ctx start item rest us' t R' (next a t)) :
    Tracks ctx start item rest (us ++ us') s R' ((step >>= next) s) := by
  cases hstep : step s with
  | ok a t =>
    rw [hstep] at h
    rw [bind_of_ok hstep]
    exact (hnext a t hstep h.2).after h.1
  | error e t =>
    rw [hstep] at h
    rw [bind_of_error hstep]
    obtain ⟨us'', hle, ht⟩ := h
    exact ⟨us'', hle.trans (List.prefix_append us us'), ht⟩

/-- A sequence that ends without looking up anything. -/
theorem finish {step : Check β α} {next : α → Check β γ}
    (h : Tracks ctx start item rest us s R (step s))
    (hnext : ∀ a t, R a → Tracks ctx start item rest [] t R' (next a t)) :
    Tracks ctx start item rest us s R' ((step >>= next) s) := by
  simpa using h.seq fun a t _ => hnext a t

/-- **A sequence in a place**: its first step may lead to another place, where
the books are in order. -/
theorem bindIn {F G : State β → α → Prop} (hs : Here ctx start item rest c s) {step : Check β α}
    {next : α → Check β γ}
    (hfollows : Follows ctx (item.name.text :: rest) (item.name.text :: rest) s F (step s))
    (hproceeds : Proceeds ctx s G (step s)) (h : Tracks ctx start item rest us s R (step s))
    (hnext : ∀ a t, (∀ d, At d t → Here ctx start item rest d t) → G t a → R a →
      Tracks ctx start item rest us' t R' (next a t)) :
    Tracks ctx start item rest (us ++ us') s R' ((step >>= next) s) := by
  refine h.seq fun a t hstep ha => ?_
  obtain ⟨ht, -, hG⟩ := hs.step hfollows hproceeds hstep
  exact hnext a t ht hG ha

/-- **A sequence that stays in its place.** -/
theorem bind {F G : State β → α → Prop} (hs : Here ctx start item rest c s) {step : Check β α}
    {next : α → Check β γ}
    (hfollows : Follows ctx (item.name.text :: rest) (item.name.text :: rest) s F (step s))
    (hproceeds : Proceeds ctx s (fun t a => At c t ∧ G t a) (step s))
    (h : Tracks ctx start item rest us s R (step s))
    (hnext : ∀ a t, Here ctx start item rest c t → G t a → R a →
      Tracks ctx start item rest us' t R' (next a t)) :
    Tracks ctx start item rest (us ++ us') s R' ((step >>= next) s) :=
  bindIn hs hfollows hproceeds h fun a t ht hG => hnext a t (ht c hG.1) hG.2

/-- A sequence in a place, whose second step looks up nothing. -/
theorem bindLast {F G : State β → α → Prop} (hs : Here ctx start item rest c s) {step : Check β α}
    {next : α → Check β γ}
    (hfollows : Follows ctx (item.name.text :: rest) (item.name.text :: rest) s F (step s))
    (hproceeds : Proceeds ctx s (fun t a => At c t ∧ G t a) (step s))
    (h : Tracks ctx start item rest us s R (step s))
    (hnext : ∀ a t, Here ctx start item rest c t → G t a → R a →
      Tracks ctx start item rest [] t R' (next a t)) :
    Tracks ctx start item rest us s R' ((step >>= next) s) := by
  simpa using bind hs hfollows hproceeds h hnext

theorem get_bind {next : State β → Check β α} (h : Tracks ctx start item rest us s R (next s s)) :
    Tracks ctx start item rest us s R ((get >>= next) s) := h

theorem pure {a : α} (h : R a) :
    Tracks ctx start item rest [] s R ((pure a : Check β α) s) := ⟨.refl s, h⟩

theorem stop (f : Fatal) : Tracks ctx start item rest us s R ((stop f : Check β α) s) :=
  ⟨[], List.nil_prefix, .refl s⟩

/-- A report ends the lookups of a declaration, and none of the names that were
to come have to be looked up. -/
theorem report (d : Diagnostic) :
    Tracks ctx start item rest us s R ((report d : Check β α) s) :=
  ⟨[], List.nil_prefix, .of_same rfl rfl rfl rfl⟩

theorem report_bind (d : Diagnostic) (next : γ → Check β α) :
    Tracks ctx start item rest us s R ((Analysis.report d >>= next) s) :=
  ⟨[], List.nil_prefix, .of_same rfl rfl rfl rfl⟩

/-- A test that has to come out false. -/
theorem reportIf {P : Prop} [Decidable P] {d : Diagnostic} {next : Unit → Check β α}
    (h : ¬P → Tracks ctx start item rest us s R (next () s)) :
    Tracks ctx start item rest us s R
      ((if P then Analysis.report d >>= next else next ()) s) := by
  split
  · exact report_bind d next
  · exact h ‹_›

/-- A comparison of types that has to come out right. -/
theorem expect_bind {site : Site} {expected found : Ty} {span : Span} {next : Unit → Check β α}
    (h : found = expected → Tracks ctx start item rest us s R (next () s)) :
    Tracks ctx start item rest us s R ((expect site expected found span >>= next) s) := by
  unfold Analysis.expect
  split
  · exact h ‹_›
  · exact report_bind _ next

/-! ## Places -/

/-- In a scope of its own the same names are looked up. -/
theorem inScope {step : Check β α}
    (h : Tracks ctx start item rest us { s with scopes := s.scopes.push } R
      (step { s with scopes := s.scopes.push })) :
    Tracks ctx start item rest us s R (inScope step s) := by
  unfold Analysis.inScope
  generalize step { s with scopes := s.scopes.push } = r at h
  rcases r with ⟨a, t⟩ | ⟨e, t⟩
  · exact ⟨h.1.congr (.of_same rfl rfl rfl rfl) (.of_same rfl rfl rfl rfl), h.2⟩
  · obtain ⟨us', hle, ht⟩ := h
    exact ⟨us', hle, ht.congr (.of_same rfl rfl rfl rfl) (.of_same rfl rfl rfl rfl)⟩

/-- So they are in an ascription. -/
theorem inAscription {step : Check β α}
    (h : Tracks ctx start item rest us { s with inAscription := true } R
      (step { s with inAscription := true })) :
    Tracks ctx start item rest us s R (inAscription step s) := by
  unfold Analysis.inAscription
  generalize step { s with inAscription := true } = r at h
  rcases r with ⟨a, t⟩ | ⟨e, t⟩
  · exact ⟨h.1.congr (.of_same rfl rfl rfl rfl) (.of_same rfl rfl rfl rfl), h.2⟩
  · obtain ⟨us', hle, ht⟩ := h
    exact ⟨us', hle, ht.congr (.of_same rfl rfl rfl rfl) (.of_same rfl rfl rfl rfl)⟩

/-- To introduce a local is not to look it up. -/
theorem introduce {kind : Local.Kind} {name : Name} {ty : Ty} :
    Tracks ctx start item rest [] s (fun _ => True) (introduce kind name ty s) := by
  unfold Analysis.introduce
  refine get_bind ?_
  cases s.scopes.add name (.lexical ⟨name, kind, ty⟩) with
  | ok scopes => exact ⟨.of_same rfl rfl rfl rfl, trivial⟩
  | error d => exact report d

theorem introduceParams (params : List (Name × Ty)) :
    Tracks ctx start item rest [] s (fun _ => True) (introduceParams params s) := by
  unfold Analysis.introduceParams
  induction params generalizing s with
  | nil => exact pure trivial
  | cons q params ih =>
    rw [List.forM_eq_forM, List.forM_cons]
    exact introduce.finish fun _ t _ => ih

end Tracks

namespace Here

/-- The analysis goes to another place, of the same declaration. -/
theorem move (h : Here ctx start item rest c s) {scopes : Scopes} (inAscription : Bool)
    (hscopes : scopes.Faithful ctx.declarations.names) :
    Here ctx start item rest scopes.bare { s with scopes, inAscription } := by
  have hmove : Detour ctx [] (item.name.text :: rest) s { s with scopes, inAscription } :=
    .move h.checking inAscription hscopes
  exact ⟨h.course.trans hmove.course, hmove.checking h.checking.book, rfl⟩

theorem inAscription (h : Here ctx start item rest c s) :
    Here ctx start item rest c { s with inAscription := true } :=
  h.place ▸ h.move true h.checking.book.scopes

theorem folding (h : Here ctx start item rest c s) (e : Term) (v : Option Value) :
    Here ctx start item rest c (s.folding e v) := by
  have hfold : Detour ctx [] (item.name.text :: rest) s (s.folding e v) := .fold h.checking
  exact ⟨h.course.trans hfold.course, hfold.checking h.checking.book, h.place⟩

/-- The analysis may go to a scope of its own. -/
theorem push (h : Here ctx start item rest c s) :
    Here ctx start item rest c.push { s with scopes := s.scopes.push } := by
  have hmove := h.move s.inAscription h.checking.book.scopes.push
  exact ⟨hmove.course, hmove.checking, congrArg Scopes.push h.place⟩

/-- What the declaration at hand knows it has looked up. -/
theorem refers (h : Here ctx start item rest c s) {ty : Ty} (hx : Knows s x ty) :
    Refers s.resolutions item.name.text x :=
  hx.2 _ (by rw [h.checking.active, List.head?_cons, Option.mem_some])

/-- The declaration at hand has its turn. -/
theorem turn (h : Here ctx start item rest c s) (entry : .source item ∈ ctx.declarations.entries) :
    Turn ctx start item s where
  course := h.course
  entry := entry
  top := by rw [h.checking.active, List.head?_cons]

end Here

end Stagewise.Analysis
