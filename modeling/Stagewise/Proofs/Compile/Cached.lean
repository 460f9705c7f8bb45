import Stagewise.Proofs.Analysis.Cached
import Stagewise.Proofs.Compile.Run

/-!
# Expansions in a compilation

A compilation settles one declaration after the other, and all of them share one
cache of expansions. So what holds of the cache at any depth of the analysis
holds from beginning to end: the backend answers a request for an expansion once
at most, and whatever part of the module it was that asked, all others get the
same answer (`expanded_once`).
-/

namespace Stagewise

open Analysis

variable {β : Type} {m : Source.Module}

namespace Compile

/-- The loop over the schedule keeps the cache with the transcript, as each
round of it does. -/
theorem caches_settleAll (ctx : Context β) (b : β) (g : Stage.Graph) (order : List Nat) :
    Moves (Caches ctx b) (settleAll ctx g order) := by
  have hc := carries_caches ctx b
  unfold settleAll
  induction order with
  | nil => exact hc.pure ()
  | cons i order ih =>
    rw [List.forM_eq_forM, List.forM_cons]
    refine hc.bind ?_ fun _ => ih
    cases hd : g.node? i >>= (·.declaration) >>= ctx.declarations.find? with
    | none => exact hc.pure ()
    | some d =>
      obtain ⟨x, -, hx⟩ := Option.bind_eq_some_iff.mp hd
      exact caches_analyzeWithin _ (Declarations.find?_eq_some_iff.mp hx).1

/-- **The cache goes with the transcript when a compilation ends.** -/
theorem Plan.cached (p : Plan m) (backend : Backend β) (b : β) (options : Options) :
    Cached backend b (p.last backend b options).backend (p.last backend b options).transcript
      (p.last backend b options).cache (p.last backend b options).expansions := by
  obtain ⟨scopes, -, hrun⟩ := p.exists_scopes backend b options
  rw [Plan.last, hrun]
  have hends := caches_settleAll (p.context backend options) b
    (stageGraph p.declarations) p.schedule.order { (p.context backend options).start b with scopes }
  generalize settleAll _ _ _ _ = result at hends
  cases result with
  | ok a t => exact hends (.start backend b options.hash)
  | error e t => exact hends (.start backend b options.hash)

end Compile

/-- **Expansions are evaluated once, and never mixed up.** A cache finds the
first answer that was kept for a text, whatever the hash. In every compilation,
when the backend has accepted a request for the expansion of a text, then it has
answered with some data, it is not asked for an expansion of this text again,
and whenever the text is expanded this is by those data. And a text is expanded
by nothing else than what the backend has answered to such a request. What text
was expanded by is on record: an expansion that returns data is written down
with them, and these are the data that are decoded when text is expanded in the
source.

The cache is asked before the backend is, and is given what the backend answers.
So it has the answers to all requests that were accepted, each under its own
text, and the first is the only one. -/
theorem expanded_once (m : Source.Module) (backend : Backend β) (b : β) (options : Options) :
    (∀ hash answers text, (Cache.keeping hash answers).get? text = answers.lookup text) ∧
    (∀ before e after text,
      (compileWith m backend b options).transcript = before ++ e :: after →
      e.ForExpansion text → e.accepted = true →
      ∃ d, (backend.evaluate text (backend.after b before)).1 = .ok d ∧
        (∀ e' ∈ after, ¬e'.ForExpansion text) ∧
        ∀ p : Compile.Plan m, ∀ d',
          (text, d') ∈ (p.last backend b options).expansions → d' = d) ∧
    (∀ p : Compile.Plan m, ∀ text d, (text, d) ∈ (p.last backend b options).expansions →
      ∃ before e after, (compileWith m backend b options).transcript = before ++ e :: after ∧
        e.ForExpansion text ∧ e.accepted = true ∧
        (backend.evaluate text (backend.after b before)).1 = .ok d) ∧
    (∀ (ctx : Context β) binding text s d t, expansion ctx binding text s = .ok d t →
      t.expansions = s.expansions ++ [(text, d)]) ∧
    ∀ (ctx : Context β) demand span i hint s,
      ExpandsTo ctx demand span i hint s (expand ctx demand span i hint s) := by
  refine ⟨Cache.get?_keeping, fun before e after text hsplit htext haccepted => ?_,
    fun p text d hused => ?_, fun ctx binding text s d t h => expansions_eq h, expandsTo⟩
  · have he : e ∈ (compileWith m backend b options).transcript :=
      hsplit ▸ List.mem_append_right _ List.mem_cons_self
    obtain ⟨p⟩ := Compile.nonempty_plan_of_mem_transcript he
    rw [(p.finishes backend b options).transcript_eq] at hsplit
    have hcached := p.cached backend b options
    obtain ⟨d, hreply, hd⟩ := hcached.answered before e after hsplit text htext haccepted
    refine ⟨d, hreply, fun e' he' => ?_, fun q d' hused => ?_⟩
    · have honce := hcached.once
      rw [hsplit] at honce
      exact List.rel_of_pairwise_cons (List.pairwise_append.mp honce).2.1 he' haccepted text htext
    · obtain rfl := p.eq q
      exact Option.some.inj ((hcached.used text d' hused).symm.trans hd)
  · rw [(p.finishes backend b options).transcript_eq]
    exact (p.cached backend b options).reply_of_used hused

/-- A function that is given an expander and has some text expanded by it. -/
def handed (name text : String) : Source.Item :=
  .function
    { span := .nowhere, name := .unplaced name
      params := [⟨.unplaced "e", .call .nowhere (.var (.unplaced "Fn"))
        [.tuple .nowhere [.var (.unplaced "String"), .var (.unplaced "Type")],
          .tuple .nowhere [.var (.unplaced "String"), .var (.unplaced "Expression")]]⟩]
      result := .var (.unplaced "String")
      body := .ofExpr (.expand .nowhere ⟨.unplaced "e", [text]⟩) }

/-- Three such functions, two of which have the same text. -/
def handedOut : Source.Module := [handed "f" "a", handed "g" "a", handed "h" "b"]

/-- The request for the text that two of them have. -/
def sharedText : String := expansionText ⟨.unplaced "e", ["a"]⟩ .string

/-- What an expander returns that quotes what it is asked. -/
def quotation (text : String) : Data :=
  .node "Tuple" [("elements", .array
    [(Value.string "").encode, .node "StringLiteral" [("value", .string text)]])]

/-- A backend with such expanders. -/
def quoting : Backend (Buffer Unit) := Buffer.backend (some fun text e => (.ok (quotation text), e))

/-- Though all texts have the same hash, the text that two functions have is
asked for once, and it is expanded twice. -/
theorem handedOut_expanded_once : ∃ p : Compile.Plan handedOut,
    ((p.last quoting { evaluator := () } { hash := fun _ => 0 }).expansions.map (·.1)).count
      sharedText = 2 ∧
    ∃ before e after d,
      (compileWith handedOut quoting { evaluator := () } { hash := fun _ => 0 }).transcript
        = before ++ e :: after ∧
      e.ForExpansion sharedText ∧ e.accepted = true ∧
      (quoting.evaluate sharedText (quoting.after { evaluator := () } before)).1 = .ok d ∧
      (∀ e' ∈ after, ¬e'.ForExpansion sharedText) ∧
      ∀ d', (sharedText, d') ∈
        (p.last quoting { evaluator := () } { hash := fun _ => 0 }).expansions → d' = d := by
  have hrun : (Compile.Plan.of? handedOut).map (fun p =>
      ((p.last quoting { evaluator := () } { hash := fun _ => 0 }).expansions.map (·.1)).count
        sharedText) = some 2 := by decide +kernel
  have hasked : ∃ e ∈ (compileWith handedOut quoting { evaluator := () }
      { hash := fun _ => 0 }).transcript, e.ForExpansion sharedText ∧ e.accepted = true := by
    decide +kernel
  obtain ⟨p, -, hp⟩ := Option.map_eq_some_iff.mp hrun
  obtain ⟨e, he, htext, haccepted⟩ := hasked
  obtain ⟨before, after, hsplit⟩ := List.append_of_mem he
  obtain ⟨d, hreply, honce, hsame⟩ := (expanded_once handedOut quoting { evaluator := () }
    { hash := fun _ => 0 }).2.1 before e after sharedText hsplit htext haccepted
  exact ⟨p, hp, before, e, after, d, hsplit, htext, haccepted, hreply, honce, hsame p⟩

end Stagewise
