import Mathlib.Data.List.Basic
import Stagewise.Analysis.Declarations

/-!
# What was said to the backend

The transcript of an analysis is a list of requests, each with what it was made
from. Two things are read off it. What was said about one declaration is its
**history**, a list of kinds of requests; to be declared and then defined is all
that can be said of it. And a request that was made from a tree mentions
declarations, which the backend should have heard of: a transcript is
**attested** if every request mentions only what was declared before it.

What a request was made from is not seen by the backend, which is given a text.
`Subject.Reads` says which texts may be made from a subject.

The answers are not in the transcript, but a backend is a machine: from the
state it was in and the requests it got, the state that it is in can be told
(`Backend.after`), and so can its answers.
-/

namespace Stagewise

namespace Analysis

/-! ## What a request is about -/

namespace Subject

/-- The declaration that a request declares or defines. -/
def declaration? : Subject → Option String
  | .builtin b => some b.name
  | .signature x | .body x _ | .literal x _ => some x
  | .given x => x
  | .term _ | .expansion _ => none

/-- **The declarations that a request mentions**: those in the tree it was made
from, or the expander that it calls. -/
def mentions : Subject → List String
  | .body _ b => b.globals
  | .term t => t.globals
  | .expansion (.global x) => [x]
  | .given _ | .builtin _ | .signature _ | .literal _ _ | .expansion (.lexical _) => []

/-- **A text is made from a subject** for a kind of request. -/
def Reads : Request → Subject → String → Prop
  | .declare, .builtin b, text => text = (Target.Item.declareBuiltin b).text
  | .declare, .signature x, text =>
    (∃ s : Target.Signature, s.name = x ∧ text = (Target.Item.declareFunction s).text) ∨
      ∃ ty, text = (Target.Item.declareConstant x ty).text
  | .define, .builtin b, text => text = (Target.Item.defineBuiltin b).text
  | .define, .body x b, text =>
    (∃ s : Target.Signature, s.name = x ∧ text = (Target.Item.function s b).text) ∨
      ∃ ty, text = (Target.Item.computed x ty b).text
  | .define, .literal x v, text => ∃ ty, text = (Target.Item.known x ty v).text
  | .evaluate, .term t, text => text = t.lower.text
  | .evaluate, .expansion binding, text => ∃ (m : Source.Invocation) (expected : Ty),
    text = expansionText m expected ∧ ∀ x, binding = .global x → x = m.expander.text
  | _, _, _ => False

end Subject

/-- The text of a request is made from its subject. -/
def Exchange.Genuine (e : Exchange) : Prop := e.subject.Reads e.kind e.text

/-! ## What was said about a declaration -/

/-- **The history of a declaration**: the kinds of the requests about it, in
order. -/
def history (transcript : List Exchange) (x : String) : List Request :=
  (transcript.filter (·.subject.declaration? = some x)).map (·.kind)

/-- The declarations that were defined, in order. -/
def definitions (transcript : List Exchange) : List String :=
  (transcript.filter (·.kind = .define)).filterMap (·.subject.declaration?)

variable {transcript : List Exchange} {e : Exchange} {x : String}

/-- A request about a declaration adds its kind to the history of that
declaration. -/
theorem history_append_of_eq (h : e.subject.declaration? = some x) :
    history (transcript ++ [e]) x = history transcript x ++ [e.kind] := by
  simp [history, List.filter_append, h]

/-- A request about something else is not in the history of a declaration. -/
theorem history_append_of_ne (h : e.subject.declaration? ≠ some x) :
    history (transcript ++ [e]) x = history transcript x := by
  simp [history, List.filter_append, h]

/-- A definition is counted once, at the end. -/
theorem definitions_append_of_define (hkind : e.kind = .define)
    (h : e.subject.declaration? = some x) :
    definitions (transcript ++ [e]) = definitions transcript ++ [x] := by
  simp [definitions, List.filter_append, hkind, h]

theorem definitions_append_of_ne (hkind : e.kind ≠ .define) :
    definitions (transcript ++ [e]) = definitions transcript := by
  simp [definitions, List.filter_append, hkind]

/-!
## What was said before

Whether a request is in order depends on what was said before it and on nothing
else. So this is a statement about all ways to cut a transcript in two, and it
is proved from the front to the back: what holds of all requests so far, each
with those before it, holds of one more request if it holds of that one
(`forall_split_append`).
-/

/-- **A declaration was declared**, and the backend accepted that. -/
def Declared (transcript : List Exchange) (x : String) : Prop :=
  ∃ e ∈ transcript, e.kind = .declare ∧ e.accepted = true ∧ e.subject.declaration? = some x

/-- **Every request is genuine, and mentions only what was declared before
it.** -/
def Attested (transcript : List Exchange) : Prop :=
  ∀ before e after, transcript = before ++ e :: after →
    e.Genuine ∧ ∀ x ∈ e.subject.mentions, Declared before x

/-- What holds of all elements of a list, each with those before it, and of one
more after them. -/
theorem forall_split_append {α : Type} {P : List α → α → Prop} {l : List α} {a : α}
    (hl : ∀ before x after, l = before ++ x :: after → P before x) (ha : P l a) :
    ∀ before x after, l ++ [a] = before ++ x :: after → P before x := by
  intro before x after h
  obtain rfl | ⟨rest, y, rfl⟩ := List.eq_nil_or_concat after
  · obtain ⟨rfl, hx⟩ := List.append_inj' h rfl
    obtain rfl := List.singleton_inj.mp hx
    exact ha
  · rw [List.concat_eq_append, ← List.cons_append, ← List.append_assoc] at h
    exact hl before x rest (List.append_inj' h rfl).1

theorem attested_nil : Attested [] := fun before e after h => by simp at h

/-- **One more request** keeps a transcript attested if the request itself is in
order. Nothing is asked of the requests before it, as what they mention was
declared before them and not before the new one. -/
theorem Attested.append (h : Attested transcript) (he : e.Genuine)
    (hmentions : ∀ x ∈ e.subject.mentions, Declared transcript x) : Attested (transcript ++ [e]) :=
  forall_split_append h ⟨he, hmentions⟩

/-- What has been declared is in the history. -/
theorem exists_mem_of_mem_history {kind : Request} (h : kind ∈ history transcript x) :
    ∃ e ∈ transcript, e.kind = kind ∧ e.subject.declaration? = some x := by
  obtain ⟨e, he, rfl⟩ := List.mem_map.mp h
  obtain ⟨hmem, hx⟩ := List.mem_filter.mp he
  exact ⟨e, hmem, rfl, of_decide_eq_true hx⟩

end Analysis

/-!
## What the backend answers

The answers that an analysis got are no part of its transcript, but for whether
a request was accepted. They need not be. The backend that is asked the same
requests in the same order from the same state gives the same answers, so a
statement about what it answered can be made about the requests alone.
-/

namespace Backend

open Analysis (Exchange)

variable {β : Type}

/-- **How a backend responds**: the fault it answers with, if it does, and the
state it goes to. -/
def respond (backend : Backend β) (kind : Request) (text : String) (b : β) : Option Fault × β :=
  match kind with
  | .declare => fault? (backend.declare text b)
  | .define => fault? (backend.define text b)
  | .evaluate => fault? (backend.evaluate text b)
where
  /-- What is wrong with an answer. -/
  fault? {α : Type} : Except Fault α × β → Option Fault × β
    | (.ok _, b) => (none, b)
    | (.error f, b) => (some f, b)

/-- The state of a backend after some requests. -/
def after (backend : Backend β) (b : β) (transcript : List Exchange) : β :=
  transcript.foldl (fun b e => (backend.respond e.kind e.text b).2) b

/-- The last request is answered in the state that those before it have left. -/
theorem after_append (backend : Backend β) (b : β) (transcript : List Exchange) (e : Exchange) :
    backend.after b (transcript ++ [e])
      = (backend.respond e.kind e.text (backend.after b transcript)).2 := by
  simp [after]

/-- The answer to a text, if it is a type. -/
def typeAnswered (backend : Backend β) (b : β) (text : String) : Option Ty :=
  match (backend.evaluate text b).1 with
  | .ok d =>
    match Value.decode [] d with
    | .ok (.type ty) => some ty
    | _ => none
  | .error _ => none

/-- **A backend in a state serves a request**: it accepts it, and if a term was
to be evaluated, which is done for ascriptions only, then the answer is a
type. -/
def Serves (backend : Backend β) (b : β) (e : Exchange) : Prop :=
  (backend.respond e.kind e.text b).1 = none ∧
    ∀ t, e.subject = .term t → (backend.typeAnswered b e.text).isSome = true

/-- **A backend serves all requests** of a transcript, from a state on. -/
def ServesAll (backend : Backend β) (b : β) (transcript : List Exchange) : Prop :=
  ∀ before e after, transcript = before ++ e :: after → backend.Serves (backend.after b before) e

end Backend

end Stagewise
