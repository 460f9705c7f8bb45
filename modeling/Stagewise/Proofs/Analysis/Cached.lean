import Stagewise.Proofs.Analysis.Cache
import Stagewise.Proofs.Analysis.Moves

/-!
# Expansions are asked for once

Before a text is expanded, it is looked up in the cache of expansions, and only
if it is not there the backend is asked. What the backend answers is kept. Hence
the cache and the transcript of an analysis belong together (`Cached`): the
cache holds the answers to the requests for expansions that were accepted, and
nothing else. An accepted request is never repeated, since its text is in the
cache from then on; one that was refused may be, as nothing was kept.

All that is said to the backend by the way leaves the cache alone. So does
everything else that an analysis does, at any depth (`caches_analyzeWithin`).
-/

namespace Stagewise.Analysis

variable {β : Type} {ctx : Context β} {backend : Backend β} {b now now' : β} {s : State β}
  {transcript : List Exchange} {cache cache' : Cache} {expansions : List (String × Data)}
  {e : Exchange} {text : String} {d : Data} {demand : String → Check β Ty}

/-- Whether a request is made for an expansion. -/
def Subject.isExpansion : Subject → Bool
  | .expansion _ => true
  | _ => false

/-- **A request for the expansion of a text.** -/
def Exchange.ForExpansion (e : Exchange) (text : String) : Prop :=
  e.kind = .evaluate ∧ e.subject.isExpansion = true ∧ e.text = text

instance (e : Exchange) (text : String) : Decidable (e.ForExpansion text) :=
  inferInstanceAs (Decidable (_ ∧ _ ∧ _))

/-- **The cache goes with the transcript** of what was said to a backend from a
state on, and with the expansions there have been. -/
structure Cached (backend : Backend β) (b now : β) (transcript : List Exchange) (cache : Cache)
    (expansions : List (String × Data)) : Prop where
  /-- The backend is in the state to which the requests have brought it. -/
  now_eq : now = backend.after b transcript
  /-- What the backend has answered is in the cache. -/
  answered : ∀ before e after, transcript = before ++ e :: after → ∀ text, e.ForExpansion text →
    e.accepted = true → ∃ d, (backend.evaluate text (backend.after b before)).1 = .ok d ∧
      cache.get? text = some d
  /-- What is in the cache was asked for. -/
  asked : ∀ text d, cache.get? text = some d → ∃ e ∈ transcript, e.ForExpansion text ∧
    e.accepted = true
  /-- What the backend has answered is not asked for again. -/
  once : transcript.Pairwise fun e e' => e.accepted = true → ∀ text, e.ForExpansion text →
    ¬e'.ForExpansion text
  /-- Texts are expanded by what is in the cache. -/
  used : ∀ text d, (text, d) ∈ expansions → cache.get? text = some d

namespace Cached

/-- In the beginning nothing was said, and nothing is kept. -/
theorem start (backend : Backend β) (b : β) (hash : String → UInt64) :
    Cached backend b b [] { hash } [] where
  now_eq := rfl
  answered before e after h := by simp at h
  asked text d h := by cases h
  once := .nil
  used text d h := absurd h List.not_mem_nil

variable (h : Cached backend b now transcript cache expansions)
include h

/-- What is asked for next was not answered before, if it is not in the
cache. -/
theorem once_append (hnew : ∀ text, e.ForExpansion text → cache.get? text = none) :
    (transcript ++ [e]).Pairwise fun e e' => e.accepted = true → ∀ text, e.ForExpansion text →
      ¬e'.ForExpansion text := by
  refine List.pairwise_append.mpr ⟨h.once, List.pairwise_singleton .., ?_⟩
  intro e₀ he₀ e' he' haccepted text htext htext'
  obtain rfl := List.mem_singleton.mp he'
  obtain ⟨before, after, hsplit⟩ := List.append_of_mem he₀
  obtain ⟨d, -, hd⟩ := h.answered before e₀ after hsplit text htext haccepted
  rw [hnew text htext'] at hd
  cases hd

/-- **One more request**, after which the cache may hold the answer to it as
well. -/
theorem ask (hnow : now' = (backend.respond e.kind e.text now).2)
    (hnew : ∀ text, e.ForExpansion text → cache.get? text = none)
    (hanswer : ∀ text, e.ForExpansion text → e.accepted = true →
      ∃ d, (backend.evaluate text now).1 = .ok d ∧ cache'.get? text = some d)
    (hkept : ∀ text d, cache.get? text = some d → cache'.get? text = some d)
    (hother : ∀ text d, cache'.get? text = some d →
      cache.get? text = some d ∨ e.ForExpansion text ∧ e.accepted = true) :
    Cached backend b now' (transcript ++ [e]) cache' expansions where
  now_eq := by rw [hnow, Backend.after_append, ← h.now_eq]
  answered := by
    refine forall_split_append (fun before e after hsplit text htext haccepted => ?_) ?_
    · obtain ⟨d, hreply, hd⟩ := h.answered before e after hsplit text htext haccepted
      exact ⟨d, hreply, hkept text d hd⟩
    · rw [← h.now_eq]
      exact hanswer
  asked text d hd := by
    obtain hd | he := hother text d hd
    · obtain ⟨e', he', htext⟩ := h.asked text d hd
      exact ⟨e', List.mem_append_left _ he', htext⟩
    · exact ⟨e, List.mem_append_right _ (List.mem_singleton_self e), he⟩
  once := h.once_append hnew
  used text d hd := hkept text d (h.used text d hd)

/-- Requests for something else. -/
theorem ask_other (hnow : now' = (backend.respond e.kind e.text now).2)
    (he : ∀ text, ¬e.ForExpansion text) :
    Cached backend b now' (transcript ++ [e]) cache expansions :=
  h.ask hnow (fun text ht => (he text ht).elim) (fun text ht => (he text ht).elim)
    (fun _ _ hd => hd) fun _ _ => .inl

/-- **A text is expanded** by what is in the cache. -/
theorem expand (hd : cache.get? text = some d) :
    Cached backend b now transcript cache (expansions ++ [(text, d)]) :=
  { h with
    used := fun text' d' h' => by
      obtain h' | h' := List.mem_append.mp h'
      · exact h.used text' d' h'
      · cases List.mem_singleton.mp h'
        exact hd }

/-- **What is used was answered**, and it is all that was answered. -/
theorem reply_of_used (hused : (text, d) ∈ expansions) :
    ∃ before e after, transcript = before ++ e :: after ∧ e.ForExpansion text ∧ e.accepted = true ∧
      (backend.evaluate text (backend.after b before)).1 = .ok d := by
  have hd := h.used text d hused
  obtain ⟨e, he, htext, haccepted⟩ := h.asked text d hd
  obtain ⟨before, after, hsplit⟩ := List.append_of_mem he
  obtain ⟨d', hreply, hd'⟩ := h.answered before e after hsplit text htext haccepted
  obtain rfl := Option.some.inj (hd.symm.trans hd')
  exact ⟨before, e, after, hsplit, htext, haccepted, hreply⟩

end Cached

/-! ## Trees -/

/-- **The cache stays with the transcript**, if it is with it. -/
def Caches (ctx : Context β) (b : β) (s t : State β) : Prop :=
  Cached ctx.backend b s.backend s.transcript s.cache s.expansions →
    Cached ctx.backend b t.backend t.transcript t.cache t.expansions

theorem respond_fault?_snd {α : Type} (r : Except Backend.Fault α × β) :
    (Backend.respond.fault? r).2 = r.2 := by
  rcases r with ⟨_ | _, _⟩ <;> rfl

/-- What is said to the backend apart from expansions. -/
theorem caches_send {α : Type} {kind : Request} {subject : Subject}
    {run : β → Except Backend.Fault α × β}
    (hrun : ∀ b, ctx.backend.respond kind text b = Backend.respond.fault? (run b))
    (hsubject : kind ≠ .evaluate ∨ subject.isExpansion = false) :
    Moves (Caches ctx b) (send kind subject text run) := by
  refine moves_send fun s _ h => h.ask_other ?_ fun text' ⟨hkind, hexpansion, _⟩ => ?_
  · exact ((congrArg Prod.snd (hrun s.backend)).trans (respond_fault?_snd _)).symm
  · exact hsubject.elim (fun hne => hne hkind) fun hne => by simp [hne] at hexpansion

/-- To declare something leaves the cache alone. -/
theorem caches_declare {subject : Subject} : Moves (Caches ctx b) (declare ctx subject text) :=
  caches_send (fun _ => rfl) (.inl (by decide))

/-- So does a definition, be it made or not. -/
theorem caches_define {name : String} {subject : Subject} :
    Moves (Caches ctx b) (define ctx name subject text) := by
  refine fun s => .define (fun h => h) fun _ _ h => h.ask_other (respond_fault?_snd _).symm ?_
  exact fun _ he => by cases he.1

/-- **A text is expanded**: by what is in the cache, or by what the backend
answers. -/
theorem caches_expansion (binding : Binding) (text : String) :
    Moves (Caches ctx b) (expansion ctx binding text) := by
  intro s
  cases hget : s.cache.get? text with
  | some d =>
    rw [expansion_of_known hget]
    exact fun h => h.expand hget
  | none =>
    rw [expansion_of_unknown hget]
    have hmiss (accepted : Bool) (text' : String) (h : Exchange.ForExpansion
        ⟨.evaluate, text, .expansion binding, accepted⟩ text') : s.cache.get? text' = none :=
      h.2.2 ▸ hget
    cases hreply : (ctx.backend.evaluate text s.backend).1 with
    | ok d =>
      rw [bind_of_ok (send_of_ok hreply)]
      intro h
      have hd : (s.cache.insert text d).get? text = some d := by
        rw [Cache.get?_insert, hget, Option.none_or, if_pos rfl]
      refine Cached.expand (h.ask (respond_fault?_snd _).symm (hmiss _) (fun text' htext' _ => ?_)
        (fun _ _ => Cache.get?_insert_of_some) fun text' d' hd' => ?_) hd
      · exact htext'.2.2 ▸ ⟨d, hreply, hd⟩
      · by_cases htext' : text' = text
        · exact .inr ⟨⟨rfl, rfl, htext'.symm⟩, rfl⟩
        · rw [Cache.get?_insert, if_neg htext', Option.or_none] at hd'
          exact .inl hd'
    | error f =>
      rw [bind_of_error (send_of_error hreply)]
      exact fun h => h.ask (respond_fault?_snd _).symm (hmiss _) (fun _ _ => nofun)
        (fun _ _ hd => hd) fun _ _ => .inl

/-- **Every tree is checked with the cache kept up.** Text that is to be
expanded is the one step that writes to it. -/
theorem carries_caches (ctx : Context β) (b : β) : Carries ctx (Caches ctx b) where
  refl _ h := h
  trans h h' hs := h' (h hs)
  quiet _ _ _ _ _ _ h := h
  inAscription h hs := h hs
  evaluate _ := caches_send (fun _ => rfl) (.inr rfl)
  expansion := caches_expansion

/-! ## What is decoded -/

/-- What comes of the data that an expander returned. -/
def readExpansion (ctx : Context β) (demand : String → Check β Ty) (span : Span)
    (i : Source.Invocation) (hint : Option Ty) (d : Data) : Check β Term := do
  match Expansion.decode [hint.getD .nil] span d with
  | .error cause => report (.expansionInvalid i.expander.text cause span)
  | .ok (message, e) =>
    if message ≠ "" then report (.expansionFailed i.expander.text message span)
    inferExpanded ctx demand e hint

/-- **How text is expanded.** The expander is looked up, it has to be one, and
it has to be defined if it is a declaration. Then there are data for the text,
which are written down, or the analysis stops. It is these data that are
decoded, and no others. -/
inductive ExpandsTo (ctx : Context β) (demand : String → Check β Ty) (span : Span)
    (i : Source.Invocation) (hint : Option Ty) (s : State β) :
    EStateM.Result Halt (State β) Term → Prop where
  | unknown {h : Halt} {t : State β} (fails : typeOf demand i.expander s = .error h t) :
    ExpandsTo ctx demand span i hint s (.error h t)
  | mistyped {binding : Binding} {ty : Ty} {u : State β}
    (found : typeOf demand i.expander s = .ok (binding, ty) u) (other : ty ≠ .expander) :
    ExpandsTo ctx demand span i hint s
      (report (.mismatch .plain .expander ty i.expander.span) u)
  | early {x : String} {u : State β}
    (found : typeOf demand i.expander s = .ok (.global x, .expander) u)
    (undefined : x ∉ u.defined) :
    ExpandsTo ctx demand span i hint s
      (.error (.fatal (.internal (.evaluatedTooEarly i.expander.text))) u)
  | unanswered {binding : Binding} {u t : State β} {h : Halt}
    (found : typeOf demand i.expander s = .ok (binding, .expander) u)
    (fails : expansion ctx binding (expansionText i (hint.getD .nil)) u = .error h t) :
    ExpandsTo ctx demand span i hint s (.error h t)
  | answered {binding : Binding} {u t : State β} {d : Data}
    (found : typeOf demand i.expander s = .ok (binding, .expander) u)
    (answer : expansion ctx binding (expansionText i (hint.getD .nil)) u = .ok d t)
    (recorded : t.expansions = u.expansions ++ [(expansionText i (hint.getD .nil), d)]) :
    ExpandsTo ctx demand span i hint s (readExpansion ctx demand span i hint d t)

/-- Data that are returned are written down. -/
theorem expansions_eq {binding : Binding} {t : State β}
    (h : expansion ctx binding text s = .ok d t) :
    t.expansions = s.expansions ++ [(text, d)] := by
  cases hget : s.cache.get? text with
  | some d' =>
    rw [expansion_of_known hget] at h
    cases h
    rfl
  | none =>
    rw [expansion_of_unknown hget] at h
    cases hreply : (ctx.backend.evaluate text s.backend).1 with
    | ok d' =>
      rw [bind_of_ok (send_of_ok hreply)] at h
      cases h
      rfl
    | error f =>
      rw [bind_of_error (send_of_error hreply)] at h
      cases h

/-- **An expansion goes one of the ways of `ExpandsTo`**, and there are no
others. So whatever is read of an expander's data is read of data that were
written down for this very text. -/
theorem expandsTo (ctx : Context β) (demand : String → Check β Ty) (span : Span)
    (i : Source.Invocation) (hint : Option Ty) (s : State β) :
    ExpandsTo ctx demand span i hint s (expand ctx demand span i hint s) := by
  unfold expand
  -- the expander is looked up, checked and defined before anything is asked
  cases hfound : typeOf demand i.expander s with
  | error h t =>
    rw [bind_of_error hfound]
    exact .unknown hfound
  | ok out u =>
    obtain ⟨binding, ty⟩ := out
    rw [bind_of_ok hfound]
    by_cases hty : ty = .expander
    · subst hty
      have hanswer : ExpandsTo ctx demand span i hint s
          ((expansion ctx binding (expansionText i (hint.getD .nil))
            >>= readExpansion ctx demand span i hint) u) := by
        cases hexpansion : expansion ctx binding (expansionText i (hint.getD .nil)) u with
        | error h t =>
          rw [bind_of_error hexpansion]
          exact .unanswered hfound hexpansion
        | ok d t =>
          rw [bind_of_ok hexpansion]
          exact .answered hfound hexpansion (expansions_eq hexpansion)
      cases binding with
      | lexical l => exact hanswer
      | global x =>
        let next (_ : Unit) := expansion ctx (.global x) (expansionText i (hint.getD .nil))
          >>= readExpansion ctx demand span i hint
        let fatal : Fatal := .internal (.evaluatedTooEarly i.expander.text)
        show ExpandsTo ctx demand span i hint s
          ((get >>= fun s => if x ∉ s.defined then stop fatal >>= next else next ()) u)
        by_cases hdefined : x ∈ u.defined
        · rw [defined_of_mem hdefined]
          exact hanswer
        · rw [defined_of_not_mem hdefined]
          exact .early hfound hdefined
    · have hexpect : (expect .plain .expander ty i.expander.span : Check β Unit)
          = report (.mismatch .plain .expander ty i.expander.span) := if_neg hty
      dsimp only
      rw [hexpect]
      exact .mistyped hfound hty

/-!
## Declarations

To define a declaration is a request, and so is to declare it. These are no
expansions, and the cache may as well not be there.
-/

/-- Of a declaration it is only the trees in it that may have something to
expand. -/
theorem caches_examine (hdemand : ∀ x, Moves (Caches ctx b) (demand x)) (d : Declaration) :
    Moves (Caches ctx b) (examine ctx demand d) := by
  have hc := carries_caches ctx b
  rcases d with builtin | f | c
  · show Moves _ (examineBuiltin ctx builtin)
    unfold examineBuiltin
    refine hc.bind caches_declare fun _ => hc.bind caches_define fun _ => ?_
    refine hc.bind (fun _ h => h) fun _ => ?_
    cases builtin.alias? with
    | some t => exact fun _ h => h
    | none => exact hc.pure ()
  · show Moves _ (examineFunction ctx demand f)
    unfold examineFunction
    refine hc.bind (fun _ h => h) fun _ => ?_
    refine hc.bind (hc.inferParams hdemand f.params) fun params => ?_
    refine hc.bind (hc.ascribedSource hdemand f.result) fun result => ?_
    refine hc.bind (fun _ h => h) fun _ => hc.bind (fun _ h => h) fun _ => ?_
    refine hc.bind caches_declare fun _ => hc.bind (hc.body hdemand params f.body _) fun body => ?_
    refine hc.bind (hc.expect .result result body.ty body.resultSpan) fun _ => ?_
    exact hc.reportIf caches_define
  · show Moves _ (examineConstant ctx demand c)
    unfold examineConstant
    refine hc.bind (fun _ h => h) fun _ => ?_
    refine hc.bind (hc.ascribedSource hdemand c.ascription) fun ty => ?_
    refine hc.bind caches_declare fun _ => hc.bind (hc.body hdemand [] c.body _) fun body => ?_
    refine hc.bind (hc.expect .constantBody ty body.ty body.resultSpan) fun _ => ?_
    refine hc.bind (hc.foldedBlock body) fun v => ?_
    cases v with
    | some v =>
      exact hc.bind caches_define fun _ => hc.bind (fun _ h => h) fun _ _ h => h
    | none => exact hc.bind caches_define fun _ _ h => h

/-- **However deep an analysis goes**, the cache stays with the transcript. -/
theorem caches_analyzeWithin (depth : Nat) {d : Declaration}
    (entry : d ∈ ctx.declarations.entries) :
    Moves (Caches ctx b) (analyzeWithin ctx depth d) := by
  have hc := carries_caches ctx b
  refine fun s => hc.analyzeWithin (fun _ _ _ _ => trivial) (fun d _ _ hdemand s _ => ?_) depth d
    entry s trivial
  exact .settle (hc.refl s) (fun _ => caches_examine hdemand d _) fun _ ht _ hs => ht hs

end Stagewise.Analysis
