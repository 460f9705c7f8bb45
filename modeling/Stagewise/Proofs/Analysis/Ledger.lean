import Mathlib.Data.List.Pairwise
import Stagewise.Proofs.Analysis.Cache
import Stagewise.Proofs.Analysis.Session

/-!
# The ledger of definitions

A declaration counts as defined from the moment in which the backend is asked to
define it, whatever the backend says. So among the declarations that are defined
there may be one that the backend has refused, and it stays there: it is not
analyzed again, and asking for its definition once more is an internal error. In
a session, which goes on after an error, this can be seen.

The **ledger** (`Ledger`) keeps what is defined in step with what was asked for,
and with the types that are known. Functions publish their types before they are
defined, and all other declarations afterwards; so of what the analysis itself
asked to define, the type is known exactly if the backend has accepted the
definition or the declaration is a function (`defined_as_asked`).
-/

namespace Stagewise.Analysis

variable {β : Type} {ctx : Context β} {s t : State β} {ds : Declarations} {defined : List String}
  {transcript : List Exchange} {types types' : List (String × Ty)} {e : Exchange} {x : String}
  {demand : String → Check β Ty}

/-- **A request to define a declaration.** -/
def Exchange.Defines (e : Exchange) (x : String) : Prop :=
  e.kind = .define ∧ e.subject.declaration? = some x

instance (e : Exchange) (x : String) : Decidable (e.Defines x) :=
  inferInstanceAs (Decidable (_ ∧ _))

/-- The analysis itself made the request, and nobody else. -/
def Exchange.Own (e : Exchange) : Prop := ∀ x, e.subject ≠ .given x

/-- **The backend has answered a request to define a declaration**, by accepting
or by refusing it. -/
def Answered (transcript : List Exchange) (x : String) (accepted : Bool) : Prop :=
  ∃ e ∈ transcript, e.Defines x ∧ e.accepted = accepted

instance (transcript : List Exchange) (x : String) (accepted : Bool) :
    Decidable (Answered transcript x accepted) := inferInstanceAs (Decidable (∃ e ∈ transcript, _))

/-- The type of a declaration is known. -/
def Known (types : List (String × Ty)) (x : String) : Prop := (types.lookup x).isSome = true

instance (types : List (String × Ty)) (x : String) : Decidable (Known types x) :=
  inferInstanceAs (Decidable (_ = true))

/-- A type that is published is known, and those before it are. -/
theorem known_cons {y : String} {ty : Ty} : Known ((x, ty) :: types) y ↔ y = x ∨ Known types y := by
  unfold Known
  rw [Cache.lookup_cons_eq_ite]
  by_cases h : y = x <;> simp [h]

/-! ## The ledger -/

/-- **The ledger is in order.** -/
structure Ledger (ds : Declarations) (defined : List String) (transcript : List Exchange)
    (types : List (String × Ty)) : Prop where
  /-- What is defined is what was asked for, in that order. -/
  order : defined = definitions transcript
  /-- Nothing is asked for twice. -/
  nodup : defined.Nodup
  /-- What the analysis has defined has a type, and functions have one even if
  they are refused. -/
  typed : ∀ e ∈ transcript, ∀ x, e.Defines x → e.Own →
    e.accepted = true ∨ ds.isFunction x = true → Known types x
  /-- What has a type was accepted, unless it is a function. -/
  accepted : ∀ x, Known types x → ds.isFunction x = false → Answered transcript x true

/-- An answer that was given stays given. -/
theorem Answered.append {accepted : Bool} (h : Answered transcript x accepted) :
    Answered (transcript ++ [e]) x accepted :=
  let ⟨e', he', hx⟩ := h
  ⟨e', List.mem_append_left _ he', hx⟩

namespace Ledger

variable (h : Ledger ds defined transcript types)
include h

/-- Other requests do not count. -/
theorem ask (hkind : e.kind ≠ .define) : Ledger ds defined (transcript ++ [e]) types where
  order := h.order.trans (definitions_append_of_ne hkind).symm
  nodup := h.nodup
  typed e' he' x hx := by
    obtain he' | he' := List.mem_append.mp he'
    · exact h.typed e' he' x hx
    · obtain rfl := List.mem_singleton.mp he'
      exact absurd hx.1 hkind
  accepted x hx hfunction := (h.accepted x hx hfunction).append

/-- The type of a function can be published at any time. -/
theorem publish (hfunction : ds.isFunction x = true) (ty : Ty) :
    Ledger ds defined transcript ((x, ty) :: types) where
  order := h.order
  nodup := h.nodup
  typed e he y hy hown hor := known_cons.mpr (.inr (h.typed e he y hy hown hor))
  accepted y hy hplain := by
    obtain rfl | hy := known_cons.mp hy
    · exact absurd hfunction (by simp [hplain])
    · exact h.accepted y hy hplain

/-- **One more declaration is to be defined.** Other types may have become known
with the answer, though of no other declaration. -/
theorem define (hnew : x ∉ defined) (he : e.Defines x) (hgrow : ∀ y, Known types y → Known types' y)
    (hown : e.Own → e.accepted = true ∨ ds.isFunction x = true → Known types' x)
    (hother : ∀ y, Known types' y → Known types y ∨ y = x ∧ e.accepted = true) :
    Ledger ds (defined ++ [x]) (transcript ++ [e]) types' where
  order := by rw [definitions_append_of_define he.1 he.2, ← h.order]
  nodup := List.nodup_append.mpr ⟨h.nodup, List.nodup_singleton x, fun y hy z hz heq =>
    hnew (List.mem_singleton.mp hz ▸ heq ▸ hy)⟩
  typed e' he' y hy hown' hor := by
    obtain he' | he' := List.mem_append.mp he'
    · exact hgrow y (h.typed e' he' y hy hown' hor)
    · obtain rfl := List.mem_singleton.mp he'
      obtain rfl : x = y := Option.some.inj (he.2.symm.trans hy.2)
      exact hown hown' hor
  accepted y hy hplain := by
    obtain hy | ⟨rfl, haccepted⟩ := hother y hy
    · exact (h.accepted y hy hplain).append
    · exact ⟨e, List.mem_append_right _ (List.mem_singleton_self e), he, haccepted⟩

/-- **There is one request for each declaration.** -/
theorem eq_of_defines {e' : Exchange} (he : e ∈ transcript) (he' : e' ∈ transcript)
    (hx : e.Defines x) (hx' : e'.Defines x) : e = e' := by
  have hnodup : (definitions transcript).Nodup := h.order ▸ h.nodup
  have hpairs := List.pairwise_filterMap.mp hnodup
  have hsymm : Std.Symm fun e e' : Exchange => ∀ y, e.subject.declaration? = some y →
      ∀ z, e'.subject.declaration? = some z → y ≠ z :=
    ⟨fun _ _ hne y hy z hz heq => hne z hz y hy heq.symm⟩
  by_contra hne
  exact hpairs.forall (List.mem_filter.mpr ⟨he, decide_eq_true hx.1⟩)
    (List.mem_filter.mpr ⟨he', decide_eq_true hx'.1⟩) hne x hx.2 x hx'.2 rfl

/-- What is defined is what somebody asked to define. -/
theorem mem_iff : x ∈ defined ↔ ∃ e ∈ transcript, e.Defines x := by
  rw [h.order, definitions, List.mem_filterMap]
  refine exists_congr fun e => ?_
  rw [List.mem_filter, decide_eq_true_iff]
  exact and_assoc

/-- **The type is known** of what was accepted and of functions. -/
theorem known_iff (he : e ∈ transcript) (hx : e.Defines x) (hown : e.Own) :
    Known types x ↔ e.accepted = true ∨ ds.isFunction x = true := by
  refine ⟨fun hknown => ?_, h.typed e he x hx hown⟩
  cases hfunction : ds.isFunction x with
  | true => exact .inr rfl
  | false =>
    obtain ⟨e', he', hx', haccepted⟩ := h.accepted x hknown hfunction
    exact .inl (h.eq_of_defines he he' hx hx' ▸ haccepted)

end Ledger

/-! ## Trees -/

/-- **The books are kept**: a ledger that was in order stays so, types stay
known, and what is defined stays defined. -/
structure Books (ctx : Context β) (s t : State β) : Prop where
  ledger : Ledger ctx.declarations s.defined s.transcript s.types →
    Ledger ctx.declarations t.defined t.transcript t.types
  known : ∀ x, Known s.types x → Known t.types x
  defined : s.defined ⊆ t.defined

/-- Nothing changes of what the books are about. -/
theorem Books.of_eq (defined : t.defined = s.defined) (transcript : t.transcript = s.transcript)
    (types : t.types = s.types) : Books ctx s t where
  ledger h := by rwa [defined, transcript, types]
  known _ hx := types ▸ hx
  defined := defined ▸ List.Subset.refl _

/-- Whatever is said to the backend that is no definition leaves the ledger as
it is. -/
theorem books_send {α : Type} {kind : Request} {subject : Subject} {text : String}
    {run : β → Except Backend.Fault α × β} (hkind : kind ≠ .define) :
    Moves (Books ctx) (send kind subject text run) :=
  moves_send fun _ _ => ⟨fun h => h.ask hkind, fun _ hx => hx, List.Subset.refl _⟩

theorem books_expansion (binding : Binding) (text : String) :
    Moves (Books ctx) (expansion ctx binding text) := by
  intro s
  cases hget : s.cache.get? text with
  | some d =>
    rw [expansion_of_known hget]
    exact Books.of_eq rfl rfl rfl
  | none =>
    rw [expansion_of_unknown hget]
    exact (books_send (by decide) s).bindOk (fun _ ht => ht) fun d t _ ht =>
      ⟨ht.ledger, ht.known, ht.defined⟩

/-- No definition is made while a tree is checked, and no type is published, but
by the declarations that are settled on the way. -/
theorem carries_books (ctx : Context β) : Carries ctx (Books ctx) where
  refl _ := .of_eq rfl rfl rfl
  trans h h' := ⟨fun hs => h'.ledger (h.ledger hs), fun x hx => h'.known x (h.known x hx),
    List.Subset.trans h.defined h'.defined⟩
  quiet _ _ _ _ _ _ := .of_eq rfl rfl rfl
  inAscription h := ⟨h.ledger, h.known, h.defined⟩
  evaluate _ := books_send (by decide)
  expansion := books_expansion

/-!
## Definitions

There are two kinds of definitions, by when the type is published. A definition
that publishes afterwards is two steps for the ledger, and in between it is out
of order: the backend has accepted the definition, and the type is not known.
Therefore the two are one step here (`books_define_publish`).
-/

/-- **A definition whose type is known already**, or that was given by somebody
else. -/
theorem books_define {subject : Subject} {text : String} (hsubject : subject.declaration? = some x)
    (hknown : (∀ y, subject ≠ .given y) → Known s.types x) :
    EndsIn (Books ctx s) (define ctx x subject text s) := by
  refine .define ((carries_books ctx).refl s) fun hnew accepted =>
    ⟨fun h => ?_, fun _ hy => hy, List.subset_append_left ..⟩
  exact h.define hnew ⟨rfl, hsubject⟩ (fun _ hy => hy) (fun hown _ => hknown hown) fun _ => .inl

/-- **A definition after which the type is published.** If it is refused,
nothing is published; and nothing has to be, as the declaration is no
function. -/
theorem books_define_publish {subject : Subject} {text : String} {next : Unit → Check β Unit}
    (hsubject : subject.declaration? = some x) (hplain : ctx.declarations.isFunction x = false)
    (hnext : ∀ t, EndsIn (fun u => u.defined = t.defined ∧ u.transcript = t.transcript ∧
      ∃ ty, u.types = (x, ty) :: t.types) (next () t)) :
    Moves (Books ctx) (define ctx x subject text >>= next) := by
  intro s
  by_cases hx : x ∈ s.defined
  · rw [bind_of_error (define_of_mem ctx hx subject text)]
    exact (carries_books ctx).refl s
  · cases hrun : (ctx.backend.define text s.backend).1 with
    | ok _ =>
      rw [bind_of_ok (define_of_accepted hx hrun)]
      refine (hnext _).imp fun u ⟨hdefined, htranscript, ty, htypes⟩ =>
        ⟨fun h => ?_, fun y hy => ?_, hdefined ▸ List.subset_append_left ..⟩
      · rw [hdefined, htranscript, htypes]
        exact h.define hx ⟨rfl, hsubject⟩ (fun _ hy => known_cons.mpr (.inr hy))
          (fun _ _ => known_cons.mpr (.inl rfl)) fun _ hy =>
            (known_cons.mp hy).symm.imp_right fun heq => ⟨heq, rfl⟩
      · rw [htypes]
        exact known_cons.mpr (.inr hy)
    | error f =>
      rw [bind_of_error (define_of_refused hx hrun)]
      refine ⟨fun h => ?_, fun _ hy => hy, List.subset_append_left ..⟩
      exact h.define hx ⟨rfl, hsubject⟩ (fun _ hy => hy)
        (fun _ hor => absurd hor (by simp [hplain])) fun _ => .inl

/-! ## Declarations -/

section

variable (hdemand : ∀ x, Moves (Books ctx) (demand x))

/-- A built-in is defined, and then its type is published. -/
theorem books_examineBuiltin {b : Builtin} (entry : .builtin b ∈ ctx.declarations.entries) :
    Moves (Books ctx) (examineBuiltin ctx b) := by
  unfold examineBuiltin
  refine (carries_books ctx).bind (books_send (by decide)) fun _ => ?_
  refine books_define_publish rfl (Declarations.isFunction_name entry) fun t => ?_
  cases b.alias? with
  | some _ => exact ⟨rfl, rfl, _, rfl⟩
  | none => exact ⟨rfl, rfl, _, rfl⟩

include hdemand

/-- **A function publishes its type when it is declared.** So when it is defined
there is nothing more to publish, and a refusal leaves a function that has its
type and no definition. -/
theorem books_examineFunction {f : Source.Function}
    (entry : .source (.function f) ∈ ctx.declarations.entries) :
    Moves (Books ctx) (examineFunction ctx demand f) := by
  have hc := carries_books ctx
  have hfunction : ctx.declarations.isFunction f.name.text = true :=
    Declarations.isFunction_name entry
  unfold examineFunction
  refine hc.bind (fun s => Books.of_eq rfl rfl rfl) fun _ => ?_
  refine hc.bind (hc.inferParams hdemand f.params) fun params => ?_
  refine hc.bind (hc.ascribedSource hdemand f.result) fun result s => ?_
  refine .modify_bind (.modify_bind ?_)
  -- the type is known from here on, so it is known when the function is to be defined
  suffices hrest : ∀ t, Known t.types f.name.text →
      EndsIn (Books ctx t) (_ : EStateM.Result ..) from
    (hrest _ (known_cons.mpr (.inl rfl))).imp fun _ =>
      hc.trans ⟨fun h => h.publish hfunction _, fun _ hx => known_cons.mpr (.inr hx),
        List.Subset.refl _⟩
  intro t hknown
  refine hc.bindAt (hc.refl t) (books_send (by decide)) (fun _ hu => hu) fun _ u hu => ?_
  refine hc.bindAt hu (hc.body hdemand params f.body _) (fun _ hv => hv) fun body v hv => ?_
  refine hc.bindAt hv (hc.expect .result result body.ty body.resultSpan) (fun _ hw => hw)
    fun _ w hw => ?_
  split
  · exact hc.trans hw (hc.report (α := Unit) _ w)
  · exact (books_define rfl fun _ => hw.known _ hknown).imp fun _ => hc.trans hw

/-- A constant is defined first. If this is refused then the analysis stops, and
the type is never published. -/
theorem books_examineConstant {c : Source.Constant}
    (entry : .source (.constant c) ∈ ctx.declarations.entries) :
    Moves (Books ctx) (examineConstant ctx demand c) := by
  have hc := carries_books ctx
  have hplain : ctx.declarations.isFunction c.name.text = false :=
    Declarations.isFunction_name entry
  unfold examineConstant
  refine hc.bind (fun s => Books.of_eq rfl rfl rfl) fun _ => ?_
  refine hc.bind (hc.ascribedSource hdemand c.ascription) fun ty => ?_
  refine hc.bind (books_send (by decide)) fun _ => ?_
  refine hc.bind (hc.body hdemand [] c.body _) fun body => ?_
  refine hc.bind (hc.expect .constantBody ty body.ty body.resultSpan) fun _ => ?_
  refine hc.bind (hc.foldedBlock body) fun v => ?_
  cases v with
  | some v => exact books_define_publish rfl hplain fun _ => ⟨rfl, rfl, _, rfl⟩
  | none => exact books_define_publish rfl hplain fun _ => ⟨rfl, rfl, _, rfl⟩

theorem books_examine {d : Declaration} (entry : d ∈ ctx.declarations.entries) :
    Moves (Books ctx) (examine ctx demand d) := by
  rcases d with b | f | c
  · exact books_examineBuiltin entry
  · exact books_examineFunction hdemand entry
  · exact books_examineConstant hdemand entry

end

/-- **However deep an analysis goes**, the books are kept. -/
theorem books_analyzeWithin (depth : Nat) {d : Declaration} (entry : d ∈ ctx.declarations.entries) :
    Moves (Books ctx) (analyzeWithin ctx depth d) := by
  have hc := carries_books ctx
  refine fun s => hc.analyzeWithin (fun _ _ _ _ => trivial) (fun d hd _ hdemand s _ => ?_) depth d
    entry s trivial
  exact .settle (hc.refl s) (fun _ => books_examine hdemand hd _) fun t ht _ =>
    ⟨ht.ledger, ht.known, ht.defined⟩

theorem books_perform (op : Operation) : Moves (Books ctx) (perform ctx op) := fun s =>
  (carries_books ctx).perform
    ((carries_books ctx).demandWith fun _ hd s _ _ => books_analyzeWithin _ hd s)
    (fun _ => books_send (by decide))
    (fun _ _ _ => books_define rfl fun hown => absurd rfl (hown _)) op s
    fun _ hd _ => books_analyzeWithin _ hd s

/-! ## Sessions -/

/-- The ledger is in order after every session. -/
theorem ledger_session (ctx : Context β) (b : β) (calls : List Call) :
    Ledger ctx.declarations (session ctx (ctx.start b) calls).defined
      (session ctx (ctx.start b) calls).transcript (session ctx (ctx.start b) calls).types := by
  refine session_induction
    (P := fun s => Ledger ctx.declarations s.defined s.transcript s.types) calls
    ⟨rfl, List.nodup_nil, fun _ he => absurd he List.not_mem_nil, fun _ hx => by cases hx⟩
    fun s c hs => ?_
  have hbooks : Books ctx { s with scopes := c.scopes } (c.after ctx s) :=
    (books_perform c.operation _).after
  exact hbooks.ledger hs

/-- **What is defined stays defined** in a session. -/
theorem defined_subset_session (s : State β) (calls : List Call) :
    s.defined ⊆ (session ctx s calls).defined := by
  refine session_induction (P := fun t => s.defined ⊆ t.defined) calls (List.Subset.refl _)
    fun t c ht => ?_
  have hbooks : Books ctx { t with scopes := c.scopes } (c.after ctx t) :=
    (books_perform c.operation _).after
  exact List.Subset.trans ht hbooks.defined

/-- **What is defined is what the backend was asked to define.** After every
session, a declaration is among those that are defined if the backend has
accepted a definition of it or has refused one, and only then. It was asked
once, and the order is that of the requests. Of what the analysis itself has
asked for, the type is known if the backend has accepted it or it is a function,
and only then.

A refusal adds the declaration, and changes nothing of what is known. After
that, in whatever way the session goes on, the declaration cannot be defined any
more.

A declaration is added before the backend is asked, and nothing is ever taken
away. This is also why nobody asks twice. -/
theorem defined_as_asked (ctx : Context β) :
    (∀ (b : β) (calls : List Call) (x : String),
      (session ctx (ctx.start b) calls).defined
        = definitions (session ctx (ctx.start b) calls).transcript ∧
      (session ctx (ctx.start b) calls).defined.Nodup ∧
      (x ∈ (session ctx (ctx.start b) calls).defined ↔
        Answered (session ctx (ctx.start b) calls).transcript x true ∨
        Answered (session ctx (ctx.start b) calls).transcript x false) ∧
      ¬(Answered (session ctx (ctx.start b) calls).transcript x true ∧
        Answered (session ctx (ctx.start b) calls).transcript x false) ∧
      ∀ e ∈ (session ctx (ctx.start b) calls).transcript, e.Defines x → e.Own →
        (Known (session ctx (ctx.start b) calls).types x ↔
          e.accepted = true ∨ ctx.declarations.isFunction x = true)) ∧
    ∀ (s : State β) (x : String) (subject : Subject) (text : String) (f : Backend.Fault),
      x ∉ s.defined → (ctx.backend.define text s.backend).1 = .error f →
        ∃ t, define ctx x subject text s = .error (.fatal (.backend f)) t ∧
          t.defined = s.defined ++ [x] ∧ t.types = s.types ∧ t.values = s.values ∧
          ∀ calls subject' text', define ctx x subject' text' (session ctx t calls)
            = .error (.fatal (.internal (.alreadyDefined x))) (session ctx t calls) := by
  refine ⟨fun b calls x => ?_, fun s x subject text f hnew hrun => ?_⟩
  · have h := ledger_session ctx b calls
    refine ⟨h.order, h.nodup, h.mem_iff.trans ⟨?_, ?_⟩, ?_,
      fun e he hx hown => h.known_iff he hx hown⟩
    · rintro ⟨e, he, hx⟩
      cases haccepted : e.accepted with
      | true => exact .inl ⟨e, he, hx, haccepted⟩
      | false => exact .inr ⟨e, he, hx, haccepted⟩
    · rintro (⟨e, he, hx, -⟩ | ⟨e, he, hx, -⟩)
      · exact ⟨e, he, hx⟩
      · exact ⟨e, he, hx⟩
    · rintro ⟨⟨e, he, hx, haccepted⟩, e', he', hx', hrefused⟩
      rw [h.eq_of_defines he he' hx hx', hrefused] at haccepted
      cases haccepted
  · refine ⟨_, define_of_refused hnew hrun, rfl, rfl, rfl, fun calls subject' text' => ?_⟩
    refine define_of_mem ctx (defined_subset_session _ calls ?_) subject' text'
    exact List.mem_append_right _ (List.mem_singleton_self x)

/-- A module of one constant. -/
def oneConstant : Source.Module :=
  [.constant
    { span := .nowhere, name := .unplaced "a", ascription := .var (.unplaced "Int")
      body := .ofExpr (.int .nowhere 1) }]

/-- Its analysis, for a backend that refuses to define the constant. -/
def refusedConstant : Context (Buffer Unit) :=
  ⟨.ofEntries (Declarations.entriesOf oneConstant) (by decide), {},
    (Buffer.backend none).refusing none (some "int a")⟩

/-- The state after the constant was to be settled. -/
def afterRefusal : State (Buffer Unit) :=
  session refusedConstant (refusedConstant.start { evaluator := () })
    [⟨(refusedConstant.start { evaluator := () }).scopes, .analyze "a"⟩]

/-- **A definition that was refused counts.** The constant is among what is
defined, though the backend has accepted no definition of it, and it has no
type. -/
theorem refused_counts_as_defined :
    afterRefusal.defined = ["Int", "a"] ∧ ¬Answered afterRefusal.transcript "a" true ∧
      ¬Known afterRefusal.types "a" := by
  decide +kernel

end Stagewise.Analysis
