import Stagewise.Proofs.Compile.Lookups
import Stagewise.Proofs.Dependency.Ascriptions
import Stagewise.Proofs.Dependency.Circuit

/-!
# What the backend has to run

Something is evaluated only if all that it mentions is defined. But the backend
runs more than that: a definition mentions others, and these mention others
again (`Runs`). They may still be missing.

A function has its type published when it is declared, so that it can be used
before it is defined. If its body is refused then it is never defined, and those
that use it are not refused for it (`stranded_runs_undefined`). The other case
is a function that is still under analysis, and it has led to what is evaluated:
then there is a circle of references, from the declaration at hand to the
function and back. If there is nothing to expand in the module, then such a
circle takes an ascription with a closure, for names that stand in an ascription
at once are used as types, and the schedule has taken care of them
(`role_eq_value_of_circle`).

Everything else that the backend has to run is defined
(`runs_defined_or_declared`).
-/

namespace Stagewise

open Analysis Relation

open Source (Item Place PlainParts)

variable {β : Type} {ctx : Context β} {start s t : State β} {m : Source.Module} {b : β}
  {backend : Backend β} {options : Options} {item : Item} {x y z : String}

namespace Analysis

/-! ## What runs -/

/-- **A request runs a declaration**: it mentions it, or it runs another whose
definition, among those in the transcript, mentions it. -/
inductive Runs (transcript : List Exchange) (subject : Subject) : String → Prop where
  | mentioned {x : String} (mention : x ∈ subject.mentions) : Runs transcript subject x
  | through {x y : String} {e : Exchange} (runs : Runs transcript subject x)
    (said : e ∈ transcript) (kind : e.kind = .define) (about : e.subject.declaration? = some x)
    (mention : y ∈ e.subject.mentions) : Runs transcript subject y

/-- **Definitions are grounded**: what is mentioned in one has a type, and was
looked up in the declaration. -/
def Grounded (s : State β) : Prop :=
  ∀ e ∈ s.transcript, e.kind = .define → ∀ x, e.subject.declaration? = some x →
    ∀ y ∈ e.subject.mentions, (s.types.lookup y).isSome = true ∧ Refers s.resolutions x y

/-- What is said was due. -/
theorem Act.mem_transcript (h : Act ctx s t) {e : Exchange} (he : e ∈ t.transcript) :
    e ∈ s.transcript ∨ Due ctx s e.kind e.subject e.text := by
  have htold {kind : Request} {subject : Subject} {text : String}
      (due : Due ctx s kind subject text) (he : e ∈ (s.told ctx kind subject text).transcript) :
      e ∈ s.transcript ∨ Due ctx s e.kind e.subject e.text := by
    obtain he | he := List.mem_append.mp he
    · exact .inl he
    · rw [List.mem_singleton.mp he]
      exact .inr due
  cases h with
  | move | resolve | fold | reuse => exact .inl he
  | evaluate due accepted => exact htold due he
  | expand due accepted answer => exact htold due he
  | enter summons entry phase =>
    cases summons with
    | unbidden idle => exact .inl he
    | lookup => exact .inl he
  | declare entry about due publishes accepted => exact htold due he
  | define entry about due learns accepted => exact htold due he
  | refuse top refusal =>
    cases refusal with
    | reported d => exact .inl he
    | inherited known failed unpublished => exact .inl he

/-- **Every act keeps definitions grounded.** One that defines something has a
body that is well typed by what the declaration knows, and to know a type is
that it is published and was looked up. -/
theorem Grounded.act (h : Grounded s) (hact : Act ctx s t) : Grounded t := by
  intro e he hkind x hx y hy
  suffices hs : (∃ ty, s.types.lookup y = some ty) ∧ Refers s.resolutions x y by
    obtain ⟨⟨ty, hty⟩, hrefers⟩ := hs
    exact ⟨Option.isSome_of_eq_some (hact.grows.types y ty hty),
      hrefers.mono hact.grows.resolutions⟩
  obtain he | due := hact.mem_transcript he
  · obtain ⟨hty, hrefers⟩ := h e he hkind x hx y hy
    exact ⟨Option.isSome_iff_exists.mp hty, hrefers⟩
  · rw [hkind] at due
    obtain - | ⟨top, about, phase, known, reads⟩ := due
    obtain rfl := Option.some.inj (hx.symm.trans about)
    obtain ⟨ty, hty, hrefers⟩ := known y hy
    exact ⟨⟨ty, hty⟩, hrefers _ top⟩

theorem Grounded.course (h : Grounded s) (hc : Course ctx s t) : Grounded t := by
  induction hc with
  | refl => exact h
  | tail _ hact ih => exact ih.act hact

namespace Runs

variable {subject : Subject}

/-- What runs is reached from what is mentioned. -/
theorem exists_reaches (h : Runs s.transcript subject y) (hs : Grounded s) :
    ∃ x ∈ subject.mentions, ReflTransGen (Refers s.resolutions) x y := by
  induction h with
  | mentioned mention => exact ⟨_, mention, .refl⟩
  | through runs said kind about mention ih =>
    obtain ⟨x, hx, hreaches⟩ := ih
    exact ⟨x, hx, hreaches.tail (hs _ said kind _ about _ mention).2⟩

/-- What runs has a type. -/
theorem published (h : Runs s.transcript subject y) (hs : Grounded s)
    (hsubject : ∀ x ∈ subject.mentions, (s.types.lookup x).isSome = true) :
    (s.types.lookup y).isSome = true := by
  cases h with
  | mentioned mention => exact hsubject y mention
  | through runs said kind about mention => exact (hs _ said kind _ about _ mention).1

end Runs

/-! ## What is not defined -/

/-- **A definition of a declaration was accepted.** -/
def Defined (transcript : List Exchange) (x : String) : Prop :=
  ∃ e ∈ transcript, e.kind = .define ∧ e.accepted = true ∧ e.subject.declaration? = some x

/-- What counts as defined is what the backend has accepted a definition of, as
long as the analysis goes on. -/
theorem Record.mem_defined_iff (h : Record ctx b s) : x ∈ s.defined ↔ Defined s.transcript x := by
  rw [h.defined, definitions, List.mem_filterMap]
  refine exists_congr fun e => ⟨?_, ?_⟩
  · rintro ⟨he, habout⟩
    obtain ⟨he, hkind⟩ := List.mem_filter.mp he
    exact ⟨he, of_decide_eq_true hkind, h.accepted e he, habout⟩
  · rintro ⟨he, hkind, -, habout⟩
    exact ⟨List.mem_filter.mpr ⟨he, decide_eq_true hkind⟩, habout⟩

/-- What is left behind in a crash makes for no definition unless it is one. -/
theorem Leaves.defined {said : List Exchange} {resolved : List Resolution}
    (h : Leaves s t said resolved) (hsaid : ¬Defined said x) (hx : Defined t.transcript x) :
    Defined s.transcript x := by
  simp only [Defined, h.transcript, List.mem_append, or_and_right, exists_or] at hx
  exact hx.resolve_right hsaid

/-- **A crash defines nothing**: a request that is refused counts for nothing,
and what is accepted in the end is no definition. -/
theorem Crash.defined {f : Fatal} (h : Crash ctx s f t) (hx : Defined t.transcript x) :
    Defined s.transcript x := by
  cases h with
  | refused due answer leaves => exact leaves.defined (by simp [Defined]) hx
  | misanswered due answer leaves => exact leaves.defined (by simp [Defined]) hx
  | misfolded typed type value other leaves => exact leaves.defined (by simp [Defined]) hx
  | early known undefined leaves => exact leaves.defined (by simp [Defined]) hx
  | reentrant inProgress leaves => exact leaves.defined (by simp [Defined]) hx

/-- **What a request mentions**, where it is made. If there is nothing to expand
in the declaration that asks then it is mentioned inside an ascription. -/
theorem Sited.of_mem_mentions {u : State β} {e : Exchange} (h : Sited ctx item u e)
    (hx : x ∈ e.subject.mentions) :
    x ∈ u.defined ∧ Refers u.resolutions item.name.text x ∧
      (PlainParts item.parts → ∃ q n, item.Mentions q n ∧ q.ascribed = true ∧ n.text = x) := by
  cases h with
  | @ascription p a t _ site _ defined known within covers =>
    refine ⟨defined x hx, known x hx, fun hplain => ?_⟩
    have hparts := item.nested.ascriptions p a site
    have hplain' : PlainParts (a.parts p.ascription) := fun q i hi => hplain q i (hparts _ hi)
    obtain ⟨q, n, hn, hfree, rfl⟩ := Source.mem_freeNames.mp ((covers hplain').1 x hx)
    have hinside := (a.nested p.ascription).inside q _ hn
    exact ⟨q, n, ⟨hparts _ hn, hfree⟩, hinside.ascribed rfl, rfl⟩
  | @invocation p i binding _ _ site _ hidden visible known =>
    cases binding with
    | lexical l => cases hx
    | global y =>
      obtain rfl := List.mem_singleton.mp hx
      have hfree : i.expander.text ∉ p.bound := fun hbound => by
        obtain ⟨l, hl, -⟩ := hidden hbound
        cases hl
      obtain ⟨hexpander, hdefined⟩ := visible hfree
      cases hexpander
      exact ⟨hdefined, known _ rfl, fun hplain => absurd site (hplain p i)⟩

end Analysis

/-- What was refused is not defined. -/
theorem Compile.Sound.not_defined_of_mem_failed (h : Compile.Sound ctx b s) (hx : x ∈ s.failed) :
    ¬Defined s.transcript x := by
  rw [← h.record.mem_defined_iff]
  exact fun hdefined => h.book.disjoint_defined_failed hdefined hx

/-! ## Circles of references -/

namespace Compile.Plan

variable (p : Plan m)

/-- **What was refused is never defined.** If the analysis crashes then the last
request is refused, or it is no definition. -/
theorem not_defined_of_mem_failed (hx : x ∈ (p.last backend b options).failed) :
    ¬Defined (compileWith m backend b options).transcript x := by
  have hfinishes := p.finishes backend b options
  generalize p.last backend b options = last at hfinishes hx
  generalize compileWith m backend b options = outcome at hfinishes
  cases hfinishes with
  | through sound idle settled => exact sound.not_defined_of_mem_failed hx
  | crashed sound crash =>
    obtain ⟨said, resolved, leaves, -⟩ := crash.leaves
    rw [leaves.failed] at hx
    exact fun hdefined => sound.not_defined_of_mem_failed hx (crash.defined hdefined)

/-- What refers to something is a declaration of the module. -/
theorem exists_item_of_refers (h : Refers (p.last backend b options).resolutions x y) :
    ∃ item ∈ m, item.name.text = x ∧
      y ∈ lookups (p.last backend b options).resolutions item.name.text := by
  obtain ⟨-, -, -, -, hsilent⟩ := p.exists_attended backend b options p.schedule.order
  have hy : y ∈ lookups (p.last backend b options).resolutions x := by
    unfold lookups
    exact List.mem_map.mpr ⟨(x, y), List.mem_filter.mpr ⟨h, decide_eq_true rfl⟩, rfl⟩
  by_cases hsource : HasSource (p.context backend options) x
  · obtain ⟨item, entry, rfl⟩ := hsource
    exact ⟨item, p.source_mem_entries.mp entry, rfl, hy⟩
  · rw [last, hsilent x hsource] at hy
    cases hy

/-- Only declarations of the module refer to something. -/
theorem mem_names_of_refers (h : Refers (p.last backend b options).resolutions x y) :
    x ∈ p.declarations.names := by
  obtain ⟨item, hitem, rfl, -⟩ := p.exists_item_of_refers h
  exact List.mem_map.mpr ⟨.source item, p.source_mem_entries.mpr hitem, rfl⟩

/-- What leads to a declaration by references is one. -/
theorem mem_names_of_reaches (hy : y ∈ p.declarations.names)
    (h : ReflTransGen (Refers (p.last backend b options).resolutions) x y) :
    x ∈ p.declarations.names := by
  obtain rfl | ⟨z, hz, -⟩ := h.cases_head
  · exact hy
  · exact p.mem_names_of_refers hz

variable (hplain : ∀ item ∈ m, item.isPlain = true)

include hplain

/-- **References are dependencies**, if there is nothing to expand. -/
theorem dependsOn_of_refers (hy : y ∈ p.declarations.names)
    (h : Refers (p.last backend b options).resolutions x y) :
    (Dependencies.collect p.declarations).DependsOn p.declarations x y := by
  obtain ⟨-, -, -, htallied, -⟩ := p.exists_attended backend b options p.schedule.order
  obtain ⟨item, hitem, rfl, hlookup⟩ := p.exists_item_of_refers h
  have hle := (htallied item hitem).le (Source.Item.plainParts (hplain item hitem))
  obtain ⟨q, n, hn, hfree, rfl⟩ := Source.mem_freeNames.mp (hle.subset hlookup)
  obtain ⟨j, hj⟩ := Declarations.exists_index?_of_mem_names hy
  refine ⟨q.role, Dependencies.mem_targets ?_ hj⟩
  rw [Dependencies.mem_names_collect (p.source_mem_entries.mpr hitem),
    Source.Item.mem_uses_iff (hplain item hitem)]
  exact ⟨q, ⟨hn, hfree⟩, rfl⟩

/-- So chains of references are chains of dependencies. -/
theorem reaches_dependsOn (hy : y ∈ p.declarations.names)
    (h : ReflTransGen (Refers (p.last backend b options).resolutions) x y) :
    ReflTransGen ((Dependencies.collect p.declarations).DependsOn p.declarations) x y := by
  induction h using ReflTransGen.head_induction_on with
  | refl => exact .refl
  | head hxz hzy ih =>
    have hz := p.mem_names_of_reaches hy hzy
    exact .head (p.dependsOn_of_refers hplain hz hxz) ih

/-- **A name on a circle of references is not used as a type**, if there is
nothing to expand: the module would have no schedule. -/
theorem role_eq_value_of_circle (hitem : item ∈ m) {q : Place} {n : Name}
    (hmentions : item.Mentions q n)
    (hback : ReflTransGen (Refers (p.last backend b options).resolutions) n.text item.name.text) :
    q.role = .value := by
  have entry := p.source_mem_entries.mpr hitem
  have hname : item.name.text ∈ p.declarations.names := List.mem_map.mpr ⟨.source item, entry, rfl⟩
  cases hrole : q.role with
  | value => rfl
  | type =>
    obtain ⟨j, hj⟩ := Declarations.exists_index?_of_mem_names (p.mem_names_of_reaches hname hback)
    have hnames : n ∈ (Dependencies.collect p.declarations).names .type item.name.text :=
      (Dependencies.mem_names_collect entry).mpr
        ((Source.Item.mem_uses_iff (hplain item hitem)).mpr ⟨q, hmentions, hrole⟩)
    exact absurd (p.reaches_dependsOn hplain hname hback)
      (Dependencies.not_reaches_of_mem_targets p.scheduled (Dependencies.mem_targets hnames hj))

end Compile.Plan

/-- **What the backend has to run is defined, or it is a function that was only
declared.** Either the function was refused before, and is never defined. Or it
is on a circle of references, with the declaration that the request comes from,
which is the one that has asked when this was said. In a module with nothing to
expand, that declaration then mentions something on the circle inside an
ascription, in the body of a closure, and so does the request.

A function has its type published before it is defined, and no other declaration
has. If it is not defined and was not refused then it is still under analysis,
and it has led to the declaration that asks through lookups. -/
theorem runs_defined_or_declared (m : Source.Module) (backend : Backend β) (b : β)
    (options : Options) (before : List Exchange) (e : Exchange) (after : List Exchange)
    (hsplit : (compileWith m backend b options).transcript = before ++ e :: after)
    (hkind : e.kind = .evaluate) (y : String) (hruns : Runs before e.subject y) :
    Defined before y ∨
      (∃ f, .function f ∈ m ∧ f.name.text = y) ∧ history before y = [.declare] ∧
      ∃ (p : Compile.Plan m) (start u : State β), p.Starts backend b options start ∧
        ∃ item ∈ m,
          Asks (p.context backend options) start (p.last backend b options) before item u ∧
          Sited (p.context backend options) item u e ∧
          (y ∈ u.failed ∧ ¬Defined (compileWith m backend b options).transcript y ∨
            ReflTransGen (Refers (p.last backend b options).resolutions) y item.name.text ∧
            TransGen (Refers (p.last backend b options).resolutions) item.name.text y ∧
            ((∀ item ∈ m, item.isPlain = true) →
              ∃ q n, item.Mentions q n ∧ q.ascribed = true ∧ q.role = .value ∧
                n.text ∈ e.subject.mentions ∧
                ReflTransGen (Refers (p.last backend b options).resolutions) n.text y)) := by
  have he : e ∈ (compileWith m backend b options).transcript :=
    hsplit ▸ List.mem_append_right _ List.mem_cons_self
  obtain ⟨p⟩ := Compile.nonempty_plan_of_mem_transcript he
  rw [(p.finishes backend b options).transcript_eq] at hsplit
  obtain ⟨start, hstarts, hattended, -⟩ := p.exists_attended backend b options p.schedule.order
  obtain ⟨hstart, hsilence⟩ := hstarts.sound
  obtain ⟨item, u, hasks, hsited⟩ := hattended before e after hsplit hkind
  obtain ⟨turn, rfl, later⟩ := id hasks
  have hu := hstart.course p.hasBuiltins turn.course
  have hground : Grounded u := Grounded.course
    (fun e he => absurd (hsilence ▸ he) List.not_mem_nil) turn.course
  have hpublished := hruns.published hground fun x hx => by
    obtain ⟨q, hq⟩ := hu.book.standing x
    obtain rfl := hq.defined.mp (hsited.of_mem_mentions hx).1
    exact hq.published
  by_cases hdefined : y ∈ u.defined
  · exact .inl (hu.record.mem_defined_iff.mp hdefined)
  obtain ⟨hfunction, hhistory, hstate⟩ :=
    hu.book.function_of_not_mem_defined hpublished hdefined
  have hitem := p.source_mem_entries.mp turn.entry
  refine .inr ⟨p.exists_function hfunction, hhistory, p, start, u, hstarts, item, hitem, hasks,
    hsited, hstate.imp (fun hfailed => ⟨hfailed, ?_⟩) fun hactive => ?_⟩
  · exact p.not_defined_of_mem_failed (later.failed.subset hfailed)
  -- from the declaration at hand to what it mentions, on to the function, and back
  obtain ⟨x, hx, hxy⟩ := hruns.exists_reaches hground
  obtain ⟨-, hrefers, hinside⟩ := hsited.of_mem_mentions hx
  have hyitem := reaches_mono later.resolutions
    (reaches_of_isChain hu.references.chained turn.top hactive)
  replace hxy := reaches_mono later.resolutions hxy
  refine ⟨hyitem, .head' (hrefers.mono later.resolutions) hxy, fun hplain => ?_⟩
  obtain ⟨q, n, hn, hascribed, rfl⟩ := hinside (Source.Item.plainParts (hplain item hitem))
  exact ⟨q, n, hn, hascribed, p.role_eq_value_of_circle hplain hitem hn (hxy.trans hyitem), hx,
    hxy⟩

/-! ## A function that is never defined -/

/-- A type that is computed by a function, which is refused for its body, and a
constant of that type. -/
def stranded : Source.Module :=
  [.function
    { span := .nowhere, name := .unplaced "g", params := [], result := .var (.unplaced "Type")
      body := .ofExpr (.var (.unplaced "oops")) },
    .constant
    { span := .nowhere, name := .unplaced "c", ascription := .var (.unplaced "Type")
      body := .ofExpr (.call .nowhere (.var (.unplaced "g")) []) },
    .constant
    { span := .nowhere, name := .unplaced "a", ascription := .var (.unplaced "c")
      body := .ofExpr (.int .nowhere 1) }]

/-- What the backend is told of them, and what it is asked. -/
def strandedTranscript : List Exchange :=
  (compileWith stranded (Buffer.backend none) { evaluator := () } {}).transcript

/-- The ascription of the constant is evaluated, and that runs the function. -/
theorem exists_stranded_request :
    ∃ e after, strandedTranscript = strandedTranscript.take 21 ++ e :: after ∧
      e.kind = .evaluate ∧ Runs (strandedTranscript.take 21) e.subject "g" := by
  have hrequest : strandedTranscript[21]?.map (fun e => (e.kind, e.subject.mentions))
      = some (.evaluate, ["c"]) := by decide +kernel
  have hdefinition : ∃ d ∈ strandedTranscript.take 21, d.kind = .define ∧
      d.subject.declaration? = some "c" ∧ "g" ∈ d.subject.mentions := by decide +kernel
  obtain ⟨e, he, heq⟩ := Option.map_eq_some_iff.mp hrequest
  obtain ⟨hlt, rfl⟩ := List.getElem?_eq_some_iff.mp he
  obtain ⟨hkind, hmentions⟩ := Prod.mk.inj heq
  obtain ⟨d, hd, hdefine, habout, hmention⟩ := hdefinition
  refine ⟨_, strandedTranscript.drop 22, ?_, hkind, ?_⟩
  · rw [← List.drop_eq_getElem_cons hlt, List.take_append_drop]
  · have hc : Runs (strandedTranscript.take 21) strandedTranscript[21].subject "c" :=
      .mentioned (hmentions ▸ List.mem_singleton_self _)
    exact hc.through hd hdefine habout hmention

/-- **The backend has to run a function that is only declared.** -/
theorem stranded_runs_undefined :
    ∃ before e after,
      (compileWith stranded (Buffer.backend none) { evaluator := () } {}).transcript
        = before ++ e :: after ∧
      e.kind = .evaluate ∧ Runs before e.subject "g" ∧ ¬Defined before "g" := by
  obtain ⟨e, after, hsplit, hkind, hruns⟩ := exists_stranded_request
  refine ⟨_, e, after, hsplit, hkind, hruns, ?_⟩
  unfold Defined
  decide +kernel

/-- The function is refused, and it is declared all the same. The constant asks
for its value, and so the first of the two cases is met. -/
theorem stranded_function_refused :
    ∃ before e after,
      (compileWith stranded (Buffer.backend none) { evaluator := () } {}).transcript
        = before ++ e :: after ∧
      e.kind = .evaluate ∧ Runs before e.subject "g" ∧
      (∃ f, .function f ∈ stranded ∧ f.name.text = "g") ∧ history before "g" = [.declare] := by
  obtain ⟨e, after, hsplit, hkind, hruns⟩ := exists_stranded_request
  have hundefined : ¬Defined (strandedTranscript.take 21) "g" := by
    unfold Defined
    decide +kernel
  obtain hdefined | ⟨hfunction, hhistory, -⟩ := runs_defined_or_declared stranded
    (Buffer.backend none) { evaluator := () } {} _ e after hsplit hkind "g" hruns
  · exact absurd hdefined hundefined
  · exact ⟨_, e, after, hsplit, hkind, hruns, hfunction, hhistory⟩

end Stagewise
