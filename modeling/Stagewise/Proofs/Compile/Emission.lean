import Stagewise.Proofs.Analysis.Sourced
import Stagewise.Proofs.Compile.Run

/-!
# What is emitted, and when

The backend is told about a declaration twice: it is declared, and later
defined. Declarations are analyzed when they are needed, from anywhere in the
analysis of others, and still none is told about more often, or in another
order, or is defined after it was refused. If the compilation succeeds then all
of them were declared and defined (`emitted_once`).

Whenever the backend is told of something that refers to declarations, it has
heard of them before: they were declared, and it accepted that
(`attested_transcript`). That holds up to the last request of every compilation,
the one that may have stopped it.
-/

namespace Stagewise

open Analysis

variable {β : Type} {ctx : Context β} {m : Source.Module} {backend : Backend β} {b : β}
  {options : Options} {s t : State β} {x : String}

namespace Analysis

/-! ## Histories -/

/-- **What can be said of a declaration**: that it is declared, and then that it
is defined. The latter is not said of one that was refused. -/
def Telling (transcript : List Exchange) (failed : List String) (x : String) : Prop :=
  history transcript x <+: [.declare, .define] ∧ (x ∈ failed → .define ∉ history transcript x)

/-- What was said of a declaration is what belongs to its phase. In no phase it
is more than these two requests, and none of the refused ones has both. -/
theorem Book.telling (h : Book ctx s) (x : String) : Telling s.transcript s.failed x := by
  obtain ⟨p, hp⟩ := h.standing x
  unfold Telling
  rw [hp.history, hp.failed]
  cases p <;> decide

/-- One request more that may be made. -/
theorem Due.telling {kind : Request} {subject : Subject} {text : String} {accepted : Bool}
    (due : Due ctx s kind subject text) (h : Book ctx s) (x : String) :
    Telling (s.transcript ++ [⟨kind, text, subject, accepted⟩]) s.failed x := by
  by_cases habout : subject.declaration? = some x
  · cases due with
    | declare top about phase mentions reads =>
      obtain rfl := Option.some.inj (habout.symm.trans about)
      unfold Telling
      rw [history_append_of_eq habout, phase.history, phase.failed]
      dsimp only
      decide
    | define top about phase known reads =>
      obtain rfl := Option.some.inj (habout.symm.trans about)
      unfold Telling
      rw [history_append_of_eq habout, phase.history, phase.failed]
      dsimp only
      decide
    | evaluate typed type defined => cases habout
    | expand known => cases habout
  · unfold Telling
    rw [history_append_of_ne habout]
    exact h.telling x

end Analysis

namespace Compile

/-!
## Whole compilations

A compilation that is stopped has made one request more than the analysis could
go on from. It was made in a state where everything was in order, and it was
due. This is why nothing that is said here has to leave out the last request.
-/

namespace Plan.Finishes

variable {p : Plan m} {o : Outcome β}

/-- **The last request of a compilation** is no different from the others. -/
theorem transcript_cases (h : Finishes p backend b options s o) :
    ∃ u, Sound (p.context backend options) b u ∧ s.failed = u.failed ∧
      (o.transcript = u.transcript ∨ ∃ kind subject text accepted,
        Due (p.context backend options) u kind subject text ∧
          o.transcript = u.transcript ++ [⟨kind, text, subject, accepted⟩]) := by
  cases h with
  | through sound idle settled => exact ⟨s, sound, rfl, .inl rfl⟩
  | @crashed u _ f sound crash =>
    obtain ⟨said, resolved, leaves, rfl | ⟨kind, subject, text, accepted, due, rfl⟩⟩ := crash.leaves
    · exact ⟨u, sound, leaves.failed, .inl (leaves.transcript.trans (List.append_nil _))⟩
    · exact ⟨u, sound, leaves.failed, .inr ⟨kind, subject, text, accepted, due, leaves.transcript⟩⟩

/-- Up to the last request, all that is mentioned was declared before. -/
theorem attested (h : Finishes p backend b options s o) : Attested o.transcript := by
  obtain ⟨u, hu, -, htranscript | ⟨kind, subject, text, accepted, due, htranscript⟩⟩ :=
    h.transcript_cases
  · exact htranscript ▸ hu.record.attested
  · obtain ⟨hreads, hmentions⟩ := due.attests hu.book hu.record.accepted
    exact htranscript ▸ hu.record.attested.append hreads hmentions

/-- A declaration or definition is about one of the module. -/
theorem about (h : Finishes p backend b options s o) {e : Exchange} (he : e ∈ o.transcript)
    (hkind : e.kind ≠ .evaluate) :
    ∃ x ∈ p.declarations.names, e.subject.declaration? = some x := by
  obtain ⟨u, hu, -, htranscript | ⟨kind, subject, text, accepted, due, htranscript⟩⟩ :=
    h.transcript_cases
  · exact hu.record.about e (htranscript ▸ he) hkind
  · rw [htranscript, List.mem_append, List.mem_singleton] at he
    obtain he | rfl := he
    · exact hu.record.about e he hkind
    · exact due.about hkind

/-- What was said of a declaration is in order, the last request included. -/
theorem telling (h : Finishes p backend b options s o) (x : String) :
    Telling o.transcript s.failed x := by
  obtain ⟨u, hu, hfailed, htranscript | ⟨kind, subject, text, accepted, due, htranscript⟩⟩ :=
    h.transcript_cases
  · exact htranscript ▸ hfailed ▸ hu.book.telling x
  · exact htranscript ▸ hfailed ▸ due.telling hu.book x

end Plan.Finishes

/-- Each round of the loop keeps the requests sourced. -/
theorem sourced_settleAll (g : Stage.Graph) (order : List Nat) :
    StaysSourced ctx (settleAll ctx g order) := by
  unfold settleAll
  induction order with
  | nil => exact sourced_pure ()
  | cons i order ih =>
    rw [List.forM_eq_forM, List.forM_cons]
    intro s hs
    refine StaysSourced.bindAt ?_ hs fun _ t _ ht => ih t ht
    cases hd : g.node? i >>= (·.declaration) >>= ctx.declarations.find? with
    | none => exact sourced_pure ()
    | some d =>
      obtain ⟨x, -, hx⟩ := Option.bind_eq_some_iff.mp hd
      exact sourced_analyzeWithin _ (Declarations.find?_eq_some_iff.mp hx).1

/-- **All requests of a compilation are sourced.** -/
theorem Plan.sourced (p : Plan m) (backend : Backend β) (b : β) (options : Options) :
    ∀ e ∈ (compileWith m backend b options).transcript, Sourced (p.context backend options) e := by
  obtain ⟨scopes, hfaithful, hrun⟩ := p.exists_scopes backend b options
  rw [(p.finishes backend b options).transcript_eq, Plan.last, hrun]
  have hstart : AllSourced (p.context backend options)
      { (p.context backend options).start b with scopes } :=
    ⟨hfaithful, fun e he => absurd he List.not_mem_nil⟩
  have hends := sourced_settleAll (stageGraph p.declarations) p.schedule.order _ hstart
  generalize settleAll _ _ _ _ = result at hends
  cases result with
  | ok a t => exact hends.transcript
  | error e t => exact hends.transcript

/-- A table by declarations has the entries of the table it was made from. -/
theorem lookup_tabulate_eq {α : Type} (ds : Declarations) (table : List (String × α)) (x : String) :
    (tabulate ds table).lookup x = if x ∈ ds.names then table.lookup x else none := by
  unfold tabulate
  induction ds.names with
  | nil => rfl
  | cons y names ih =>
    by_cases hne : x = y
    · subst hne
      cases hx : table.lookup x with
      | none => simp [hx, ih]
      | some a => simp [hx]
    · cases hy : table.lookup y with
      | none => simpa [hy, hne] using ih
      | some a => simpa [hy, hne, List.lookup_cons, beq_false_of_ne hne] using ih

/-- What a table has of a declaration is in the table by declarations. -/
theorem lookup_tabulate {α : Type} {ds : Declarations} {table : List (String × α)} {a : α}
    (hx : x ∈ ds.names) (ha : table.lookup x = some a) :
    (tabulate ds table).lookup x = some a := by
  rw [lookup_tabulate_eq, if_pos hx, ha]

end Compile

/-- **Every declaration is told about in two steps, and once**: it is declared
at most once, then defined at most once, and one that was refused is not defined
at all. A compilation that succeeds declares and defines all of them, in the
order it reports, and knows the types of all. What is said of a declaration is
the text of its own item.

A declaration goes through phases, from which it does not come back, and each
phase allows for one request at most. This is so wherever in the analysis of
others it is needed. -/
theorem emitted_once (m : Source.Module) (backend : Backend β) (b : β) (options : Options) :
    (∀ e ∈ (compileWith m backend b options).transcript, e.Genuine ∧ (e.kind ≠ .evaluate →
      ∃ d ∈ Declarations.entriesOf m,
        e.subject.declaration? = some d.name ∧ e.TellsOf options d)) ∧
    (∀ x, history (compileWith m backend b options).transcript x <+: [.declare, .define]) ∧
    (∀ p : Compile.Plan m, ∀ x ∈ (p.last backend b options).failed,
      .define ∉ history (compileWith m backend b options).transcript x) ∧
    ∀ c, (compileWith m backend b options).result = .ok c →
      (∀ d ∈ Declarations.entriesOf m,
        history (compileWith m backend b options).transcript d.name = [.declare, .define] ∧
          (c.types.lookup d.name).isSome = true) ∧
      c.order = definitions (compileWith m backend b options).transcript ∧ c.order.Nodup ∧
      c.order.Perm ((Declarations.entriesOf m).map Declaration.name) := by
  obtain h | ⟨⟨p⟩⟩ := isEmpty_or_nonempty (Compile.Plan m)
  · obtain ⟨failure, hfailure⟩ := Compile.compileWith_of_isEmpty h backend b options
    rw [hfailure]
    exact ⟨fun e he => absurd he List.not_mem_nil, fun x => List.nil_prefix, fun p => h.elim p,
      fun c hc => by cases hc⟩
  · have hp := p.finishes backend b options
    refine ⟨fun e he => ⟨?_, fun hkind => ?_⟩, fun x => (hp.telling x).1,
      fun p x hx => ((p.finishes backend b options).telling x).2 hx, fun c hc => ?_⟩
    · obtain ⟨before, after, heq⟩ := List.append_of_mem he
      exact (hp.attested before e after heq).1
    · obtain ⟨d, hd, item, hemits, htext⟩ :=
        (p.sourced backend b options e he).exists_tellsOf hkind
      exact ⟨d, p.entries_eq ▸ hd, hemits.declaration?_eq, item, hemits, htext⟩
    · obtain ⟨sound, -, -, hperm, htranscript, horder, htypes, -⟩ := hp.of_result_eq_ok hc
      rw [htranscript, horder, htypes, ← p.entries_eq]
      refine ⟨fun d hd => ?_, sound.record.defined, sound.book.defined, hperm⟩
      have hx : d.name ∈ p.declarations.names := List.mem_map.mpr ⟨d, hd, rfl⟩
      -- a declaration that is defined is in its last phase, and that tells what was said of it
      obtain ⟨q, hq⟩ := sound.book.standing d.name
      obtain rfl := hq.defined.mp (hperm.mem_iff.mpr hx)
      obtain ⟨ty, hty⟩ := Option.isSome_iff_exists.mp hq.published
      exact ⟨hq.history, Option.isSome_of_eq_some (Compile.lookup_tabulate hx hty)⟩

/-- A constant that is computed by a function, which uses another constant, the
last first. -/
def relay : Source.Module :=
  [.constant
    { span := .nowhere, name := .unplaced "total", ascription := .var (.unplaced "Int")
      body := .ofExpr (.call .nowhere (.var (.unplaced "twice")) []) },
    .function
    { span := .nowhere, name := .unplaced "twice", params := [], result := .var (.unplaced "Int")
      body := .ofExpr (.binary .nowhere .add (.var (.unplaced "rate")) (.var (.unplaced "rate"))) },
    .constant
    { span := .nowhere, name := .unplaced "rate", ascription := .var (.unplaced "Int")
      body := .ofExpr (.int .nowhere 3) }]

/-- The three are written in the order in which they need each other. All of
them are declared and defined, none of them twice. -/
theorem relay_emitted : ∃ c,
    (compileWith relay (Buffer.backend none) { evaluator := () } {}).result = .ok c ∧
      (∀ d ∈ Declarations.entriesOf relay,
        history (compileWith relay (Buffer.backend none) { evaluator := () } {}).transcript d.name
          = [.declare, .define] ∧ (c.types.lookup d.name).isSome = true) ∧
      c.order.Nodup ∧ "total" ∈ c.order ∧ "twice" ∈ c.order ∧ "rate" ∈ c.order := by
  have hok : (compileWith relay (Buffer.backend none) { evaluator := () } {}).result.isOk
      = true := by decide +kernel
  cases hc : (compileWith relay (Buffer.backend none) { evaluator := () } {}).result with
  | error failure =>
    rw [hc] at hok
    cases hok
  | ok c =>
    obtain ⟨hall, -, hnodup, hperm⟩ :=
      (emitted_once relay (Buffer.backend none) { evaluator := () } {}).2.2.2 c hc
    exact ⟨c, rfl, hall, hnodup, hperm.mem_iff.mpr (by decide), hperm.mem_iff.mpr (by decide),
      hperm.mem_iff.mpr (by decide)⟩

/-- **The backend has heard of what it is told of**: what is mentioned was
declared before, with the text of its own item, and that was accepted. What a
term mentions has a type, and it has one only since it was declared. -/
theorem attested_transcript (m : Source.Module) (backend : Backend β) (b : β) (options : Options) :
    Attested (compileWith m backend b options).transcript ∧
    ∀ before e after, (compileWith m backend b options).transcript = before ++ e :: after →
      ∀ x ∈ e.subject.mentions, ∃ d ∈ Declarations.entriesOf m, d.name = x ∧
        ∃ e' ∈ before, e'.kind = .declare ∧ e'.accepted = true ∧ e'.TellsOf options d := by
  obtain h | ⟨⟨p⟩⟩ := isEmpty_or_nonempty (Compile.Plan m)
  · obtain ⟨failure, hfailure⟩ := Compile.compileWith_of_isEmpty h backend b options
    rw [hfailure]
    exact ⟨attested_nil, fun before e after hsplit => by cases before <;> cases hsplit⟩
  have hattested := (p.finishes backend b options).attested
  refine ⟨hattested, fun before e after hsplit x hx => ?_⟩
  obtain ⟨e', he', hkind, haccepted, habout⟩ := (hattested before e after hsplit).2 x hx
  have hsourced := p.sourced backend b options e' (hsplit ▸ List.mem_append_left _ he')
  obtain ⟨d, hd, item, hemits, htext⟩ := hsourced.exists_tellsOf (by simp [hkind])
  obtain rfl := Option.some.inj (hemits.declaration?_eq.symm.trans habout)
  exact ⟨d, p.entries_eq ▸ hd, rfl, e', he', hkind, haccepted, item, hemits, htext⟩

end Stagewise
