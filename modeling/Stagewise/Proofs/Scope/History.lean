import Mathlib.Data.List.Nodup
import Mathlib.Data.List.TakeWhile
import Stagewise.Proofs.Environment
import Stagewise.Proofs.Scope

/-!
# What a chain of scopes remembers

A chain of scopes begins as a root, and from then on scopes are opened and left,
names are introduced in the innermost scope, and names are looked up from there.
All that a chain remembers can be read off its **history**, the operations and
the chains they were done in: the entries of an open scope are the names
introduced since the scope was opened while it was the innermost, and its
captures are the lookups since then that were made in it or further in and were
found further out.

Captures are left in all scopes on the way, while names keep being introduced.
That a capture stays right is a matter of the order of events: names are
introduced in the innermost scope only, so what is further out stays as it is
for as long as a scope is open. A capture in a scope therefore says what the
scopes around it say **now** (`Scope.Kept`), two captures of one name are the
same capture, and keeping the first of each name loses nothing.
-/

namespace Stagewise

namespace Scope

variable {s : Scope} {name : Name}

/-- A scope with one more capture. -/
def capture (s : Scope) (c : Capture) : Scope := { s with captures := s.captures ++ [c] }

theorem captures_capture (s : Scope) (c : Capture) : (s.capture c).captures = s.captures ++ [c] :=
  rfl

/-- A name that is new is introduced. -/
theorem add_of_forall_ne (h : ∀ e ∈ s.entries, e.name.text ≠ name.text) (b : Binding) :
    s.add name b = .ok { s with entries := s.entries ++ [⟨name, b⟩] } := by
  have hnone : s.find? name.text = none := List.find?_eq_none.mpr (by simpa using h)
  simp only [add, hnone]

/-- **A name is introduced once**, and another time is refused with both
places. -/
theorem add_of_mem (hnames : (s.entries.map (·.name.text)).Nodup) {e : Entry} (he : e ∈ s.entries)
    (hname : e.name.text = name.text) (b : Binding) :
    s.add name b = .error (.duplicate name.text e.name.span name.span) := by
  obtain ⟨e', hfind⟩ : ∃ e', s.find? name.text = some e' :=
    Option.isSome_iff_exists.mp (List.find?_isSome.mpr ⟨e, he, by simpa using hname⟩)
  have hname' : e'.name.text = name.text := by simpa using List.find?_some hfind
  obtain rfl := List.inj_on_of_nodup_map hnames (List.mem_of_find?_eq_some hfind) he
    (hname'.trans hname.symm)
  simp only [add, hfind]

end Scope

namespace Scopes

/-!
## Lookup

A lookup goes from scope to scope, outwards, until one introduces the name. In
the definition this is a recursion over the scopes, which also leaves a capture
in each one that is passed. Here the two are said apart: what is found, and
which scopes are passed.
-/

/-- **The scopes of a chain**, innermost first. -/
def levels (s : Scopes) : List Scope := s.inner ++ [s.root]

/-- **What scopes say about a name**: what the first that introduces it says,
else what the top level does. -/
def nearest (topLevel : List String) (x : String) (scopes : List Scope) : Option Binding :=
  (scopes.findSome? (·.own? x)).or (if x ∈ topLevel then some (.global x) else none)

/-- **The scopes that a lookup passes through**: those strictly inside the one
that introduces the name, and all but the root if none does. -/
def passed (s : Scopes) (x : String) : List Scope :=
  s.inner.takeWhile fun scope => (scope.own? x).isNone

/-- What is found is what the first scope that introduces the name says. -/
theorem resolveIn_eq (outside : Option Binding) (x : String) (scopes : List Scope) :
    resolveIn outside x scopes = (scopes.findSome? (·.own? x)).or outside := by
  induction scopes with
  | nil => rfl
  | cons scope outer ih =>
    rw [resolveIn, List.findSome?_cons]
    cases scope.own? x with
    | none => exact ih
    | some b => rfl

/-- The same for the whole chain, with the root for the last scope. -/
theorem resolve_eq_nearest (s : Scopes) (x : String) :
    s.resolve x = nearest s.topLevel x s.levels := by
  have hroot : s.rootBinding x =
      (s.root.own? x).or (if x ∈ s.topLevel then some (.global x) else none) := by
    unfold rootBinding
    cases s.root.own? x <;> rfl
  rw [resolve, resolveIn_eq, hroot, nearest, levels, List.findSome?_append, Option.or_assoc,
    List.findSome?_singleton]

/-- A capture is left in the scopes that are passed, and in no other. -/
theorem captureIn_eq (dedup : Bool) (x : String) (b : Binding) (scopes : List Scope) :
    captureIn dedup x b scopes =
      (scopes.takeWhile fun scope => (scope.own? x).isNone).map (·.record dedup x b) ++
        scopes.drop (scopes.takeWhile fun scope => (scope.own? x).isNone).length := by
  induction scopes with
  | nil => rfl
  | cons scope outer ih =>
    rw [captureIn, List.takeWhile_cons]
    cases scope.own? x with
    | none => simp [ih]
    | some b => rfl

/-- Captures are no entries. -/
theorem findSome?_captureIn (dedup : Bool) (x y : String) (b : Binding) (scopes : List Scope) :
    (captureIn dedup x b scopes).findSome? (·.own? y) = scopes.findSome? (·.own? y) := by
  induction scopes with
  | nil => rfl
  | cons scope outer ih =>
    rw [captureIn]
    cases scope.own? x with
    | none =>
      have hown : (scope.record dedup x b).own? y = scope.own? y := by
        unfold Scope.record
        split <;> rfl
      simp only [List.findSome?_cons, hown, ih]
    | some b => rfl

/-- No scope is opened or left by a lookup. -/
theorem length_captureIn (dedup : Bool) (x : String) (b : Binding) (scopes : List Scope) :
    (captureIn dedup x b scopes).length = scopes.length := by
  induction scopes with
  | nil => rfl
  | cons scope outer ih =>
    rw [captureIn]
    cases scope.own? x with
    | none => exact congrArg (· + 1) ih
    | some b => rfl

/-!
## Operations

There are five things that are done with a chain. Two of them can fail, and then
nothing changes. The history has every operation with the chain it was done in,
so what an operation did can be said in terms of the chain before it.
-/

/-- **What is done with a chain.** -/
inductive Op where
  /-- Open a scope. -/
  | push
  /-- Leave the innermost scope. -/
  | pop
  /-- Introduce a name in the innermost scope. -/
  | add (name : Name) (b : Binding)
  /-- Look up a name without a trace. -/
  | resolve (x : String)
  /-- Look up a name. -/
  | get (x : String)

/-- **The chain after an operation.** One that fails leaves the chain as it
is. -/
def after (s : Scopes) : Op → Scopes
  | .push => s.push
  | .pop => s.pop
  | .add name b => (s.add name b).toOption.getD s
  | .resolve _ => s
  | .get x => ((s.get x).map (·.2)).getD s

/-- A chain that is only a root. -/
def start (topLevel : List String) (dedup : Bool) : Scopes := { topLevel, dedup }

/-- The chain after several operations. -/
def run (s : Scopes) (ops : List Op) : Scopes := ops.foldl after s

/-- **An operation, and the chain it was done in.** -/
structure Event where
  /-- The chain. -/
  before : Scopes
  /-- The operation. -/
  op : Op

/-- **The history of a chain.** -/
def history (s : Scopes) : List Op → List Event
  | [] => []
  | op :: ops => ⟨s, op⟩ :: history (s.after op) ops

namespace Event

/-- Whether an event opens the scope with `depth` scopes around it. -/
def opens (depth : Nat) : Event → Bool
  | ⟨s, .push⟩ => s.levels.length = depth
  | _ => false

/-- What an event introduces in the scope with `depth` scopes around it: a name
that is new there, if that scope is the innermost. -/
def introduced? (depth : Nat) : Event → Option Scope.Entry
  | ⟨s, .add name b⟩ =>
    if s.inner.length = depth ∧ ∀ e ∈ s.current.entries, e.name.text ≠ name.text then
      some ⟨name, b⟩
    else none
  | _ => none

/-- What an event captures in the scope with `depth` scopes around it: a name
that neither that scope nor any further in introduces, if the lookup succeeds.
The root captures nothing. -/
def capture? (depth : Nat) : Event → Option Capture
  | ⟨s, .get x⟩ =>
    if 0 < depth ∧ ∀ scope ∈ s.levels.take (s.levels.length - depth), scope.own? x = none then
      (s.resolve x).map (⟨x, ·⟩)
    else none
  | _ => none

end Event

/-- **The events since a scope was opened**, the one with `depth` scopes around
it. -/
def since (depth : Nat) (events : List Event) : List Event :=
  (events.reverse.takeWhile fun e => !e.opens depth).reverse

/-- The first of equal captures, or all of them. -/
def firsts (dedup : Bool) (captures : List Capture) : List Capture :=
  if dedup then captures.eraseDups else captures

/-- **A scope is kept** as the history of the chain has it, where `outside` are
the scopes around it. -/
structure Kept (topLevel : List String) (dedup : Bool) (events : List Event) (scope : Scope)
    (outside : List Scope) : Prop where
  /-- Its entries are the names introduced since it was opened. -/
  entries : scope.entries =
    (since outside.length events).filterMap (·.introduced? outside.length)
  /-- No name is introduced twice. -/
  names : (scope.entries.map (·.name.text)).Nodup
  /-- Its captures are the lookups since it was opened that passed through
  it. -/
  captures : scope.captures =
    firsts dedup ((since outside.length events).filterMap (·.capture? outside.length))
  /-- A capture says what the scopes around say now, and the root has none. -/
  captured : ∀ c ∈ scope.captures, outside ≠ [] ∧ nearest topLevel c.name outside = some c.binding
  /-- No name is captured twice. -/
  distinct : dedup = true → (scope.captures.map (·.name)).Nodup

/-- Every scope of a chain is kept. -/
def Chronicle (topLevel : List String) (dedup : Bool) (events : List Event) : List Scope → Prop
  | [] => True
  | scope :: outside =>
    Kept topLevel dedup events scope outside ∧ Chronicle topLevel dedup events outside

section Steps

variable {topLevel : List String} {dedup : Bool} {events : List Event} {e : Event} {scope : Scope}
  {outside outside' : List Scope} {depth : Nat} {x : String} {b : Binding} {s t : Scopes}

/-- An event either opens the scope, and then nothing has happened since, or it
is the last that happened. -/
theorem since_concat (depth : Nat) (events : List Event) (e : Event) :
    since depth (events ++ [e]) = if e.opens depth then [] else since depth events ++ [e] := by
  rw [since, List.reverse_append, List.reverse_singleton, List.singleton_append,
    List.takeWhile_cons]
  cases e.opens depth
  · simp [since]
  · rfl

/-- The first of equal elements is kept. -/
theorem eraseDups_concat {α : Type} [BEq α] [LawfulBEq α] (l : List α) (a : α) [Decidable (a ∈ l)] :
    (l ++ [a]).eraseDups = if a ∈ l then l.eraseDups else l.eraseDups ++ [a] := by
  by_cases ha : a ∈ l <;>
    simp [List.eraseDups_append, List.eraseDups_cons, List.removeAll, ha]

/-- A capture is kept if it is the first of its kind, or if all are kept. -/
theorem firsts_concat (dedup : Bool) (captures : List Capture) (c : Capture) :
    firsts dedup (captures ++ [c]) =
      if dedup = true ∧ c ∈ firsts dedup captures then firsts dedup captures
      else firsts dedup captures ++ [c] := by
  cases dedup with
  | false => simp [firsts]
  | true => simp [firsts, eraseDups_concat, List.mem_eraseDups]

namespace Kept

/-- A new scope, which has seen nothing. -/
theorem opened (h : e.opens outside.length = true) :
    Kept topLevel dedup (events ++ [e]) {} outside where
  entries := by rw [since_concat, if_pos h, List.filterMap_nil]
  names := List.nodup_nil
  captures := by
    rw [since_concat, if_pos h, List.filterMap_nil]
    cases dedup <;> rfl
  captured _ hc := absurd hc List.not_mem_nil
  distinct _ := List.nodup_nil

/-- An event that has nothing to do with the scope. -/
theorem quiet (h : Kept topLevel dedup events scope outside)
    (hopens : e.opens outside.length = false) (hentry : e.introduced? outside.length = none)
    (hcapture : e.capture? outside.length = none) :
    Kept topLevel dedup (events ++ [e]) scope outside where
  entries := by simp [since_concat, hopens, hentry, h.entries]
  names := h.names
  captures := by simp [since_concat, hopens, hcapture, h.captures]
  captured := h.captured
  distinct := h.distinct

/-- What matters of the scopes around is what they say. -/
theorem congr (h : Kept topLevel dedup events scope outside)
    (hlen : outside'.length = outside.length)
    (hnearest : ∀ x, nearest topLevel x outside' = nearest topLevel x outside) :
    Kept topLevel dedup events scope outside' where
  entries := by rw [hlen, h.entries]
  names := h.names
  captures := by rw [hlen, h.captures]
  captured c hc := by
    obtain ⟨hne, hc⟩ := h.captured c hc
    exact ⟨List.ne_nil_of_length_pos (hlen ▸ List.length_pos_of_ne_nil hne),
      (hnearest c.name).trans hc⟩
  distinct := h.distinct

/-- In a scope that is kept, captures of one name are the same capture. -/
theorem mem_captures_iff (h : Kept topLevel dedup events scope outside)
    (hb : nearest topLevel x outside = some b) :
    (∃ c ∈ scope.captures, c.name = x) ↔ ⟨x, b⟩ ∈ scope.captures := by
  refine ⟨?_, fun hc => ⟨_, hc, rfl⟩⟩
  rintro ⟨c, hc, rfl⟩
  obtain rfl := Option.some.inj ((h.captured c hc).2.symm.trans hb)
  exact hc

/-- To ask for a capture of the name is to ask for this very capture. -/
theorem record_eq (h : Kept topLevel dedup events scope outside)
    (hb : nearest topLevel x outside = some b) :
    scope.record dedup x b =
      if dedup = true ∧ ⟨x, b⟩ ∈ scope.captures then scope else scope.capture ⟨x, b⟩ := by
  simp only [Scope.record, Bool.and_eq_true, List.any_eq_true, decide_eq_true_eq,
    h.mem_captures_iff hb]
  rfl

/-- A lookup that passes through the scope. -/
theorem record (h : Kept topLevel dedup events scope outside)
    (hopens : e.opens outside.length = false) (hentry : e.introduced? outside.length = none)
    (hcapture : e.capture? outside.length = some ⟨x, b⟩) (houtside : outside ≠ [])
    (hb : nearest topLevel x outside = some b) :
    Kept topLevel dedup (events ++ [e]) (scope.record dedup x b) outside := by
  rw [h.record_eq hb]
  have hcaptures : firsts dedup
      ((since outside.length (events ++ [e])).filterMap (·.capture? outside.length)) =
      if dedup = true ∧ ⟨x, b⟩ ∈ scope.captures then scope.captures
      else scope.captures ++ [⟨x, b⟩] := by
    rw [since_concat, hopens, if_neg Bool.false_ne_true, List.filterMap_append,
      List.filterMap_cons_some hcapture, List.filterMap_nil, firsts_concat, ← h.captures]
  have hentries : scope.entries =
      (since outside.length (events ++ [e])).filterMap (·.introduced? outside.length) := by
    simp [since_concat, hopens, hentry, h.entries]
  split
  next hmem =>
    rw [if_pos hmem] at hcaptures
    exact { h with entries := hentries, captures := hcaptures.symm }
  next hnew =>
    rw [if_neg hnew] at hcaptures
    refine ⟨hentries, h.names, hcaptures.symm, fun c hc => ?_, fun hdedup => ?_⟩
    · obtain hc | hc := List.mem_append.mp hc
      · exact h.captured c hc
      · obtain rfl := List.mem_singleton.mp hc
        exact ⟨houtside, hb⟩
    · rw [Scope.captures_capture, List.map_append]
      refine List.nodup_append.mpr ⟨h.distinct hdedup, List.nodup_singleton _, ?_⟩
      rintro _ hc _ hx rfl
      obtain rfl := List.mem_singleton.mp hx
      exact hnew ⟨hdedup, (h.mem_captures_iff hb).mp (List.mem_map.mp hc)⟩

/-- A name introduced in the scope. -/
theorem add (h : Kept topLevel dedup events scope outside) {name : Name}
    (hopens : e.opens outside.length = false)
    (hentry : e.introduced? outside.length = some ⟨name, b⟩)
    (hcapture : e.capture? outside.length = none)
    (hname : ∀ e ∈ scope.entries, e.name.text ≠ name.text) :
    Kept topLevel dedup (events ++ [e]) { scope with entries := scope.entries ++ [⟨name, b⟩] }
      outside where
  entries := by simp [since_concat, hopens, hentry, h.entries]
  names := by
    rw [List.map_append]
    refine List.nodup_append.mpr ⟨h.names, by simp, ?_⟩
    simpa using hname
  captures := by simp [since_concat, hopens, hcapture, h.captures]
  captured := h.captured
  distinct := h.distinct

end Kept

/-!
## Chains

Every scope of the chain is kept at once, each with the scopes around it. An
operation is about one scope or, if it is a lookup, about those that are passed,
and for all others it is quiet.
-/

namespace Chronicle

/-- An event that has nothing to do with any of the scopes. -/
theorem quiet {scopes : List Scope} (h : Chronicle topLevel dedup events scopes)
    (hquiet : ∀ depth < scopes.length,
      e.opens depth = false ∧ e.introduced? depth = none ∧ e.capture? depth = none) :
    Chronicle topLevel dedup (events ++ [e]) scopes := by
  induction scopes with
  | nil => trivial
  | cons scope outside ih =>
    obtain ⟨hopens, hentry, hcapture⟩ := hquiet outside.length (Nat.lt_succ_self _)
    exact ⟨h.1.quiet hopens hentry hcapture,
      ih h.2 fun depth hdepth => hquiet depth (Nat.lt_succ_of_lt hdepth)⟩

/-- A scope of the chain is kept, with the scopes further out around it. -/
theorem kept {inside : List Scope}
    (h : Chronicle topLevel dedup events (inside ++ scope :: outside)) :
    Kept topLevel dedup events scope outside := by
  induction inside with
  | nil => exact h.1
  | cons _ _ ih => exact ih h.2

end Chronicle

/-- The innermost scope is exchanged, and the others stay. -/
theorem levels_setCurrent (s : Scopes) (scope : Scope) :
    (s.setCurrent scope).levels = scope :: s.levels.tail := by
  obtain ⟨topLevel, dedup, inner, root⟩ := s
  cases inner <;> rfl

/-- The innermost scope and those around it. -/
theorem levels_eq_cons (s : Scopes) : s.levels = s.current :: s.levels.tail := by
  obtain ⟨topLevel, dedup, inner, root⟩ := s
  cases inner <;> rfl

/-- There are as many scopes around the innermost as there are scopes but the
root. -/
theorem length_tail_levels (s : Scopes) : s.levels.tail.length = s.inner.length := by
  simp [levels]

/-- Scopes that do not introduce a name have nothing to say about it. -/
theorem nearest_append {inside : List Scope} (h : ∀ scope ∈ inside, scope.own? x = none) :
    nearest topLevel x (inside ++ outside) = nearest topLevel x outside := by
  rw [nearest, List.findSome?_append, List.findSome?_eq_none_iff.mpr h, Option.none_or, nearest]

/-- The scopes with fewer scopes around them are further in. -/
theorem mem_take_levels {inside : List Scope} (h : s.levels = inside ++ outside)
    (hdepth : depth ≤ outside.length) (hscope : scope ∈ inside) :
    scope ∈ s.levels.take (s.levels.length - depth) := by
  rw [h, List.length_append, List.take_append, List.take_of_length_le (by omega)]
  exact List.mem_append_left _ hscope

/-- A name that is new in the innermost scope is introduced there. -/
theorem add_of_forall_ne {name : Name} (h : ∀ e ∈ s.current.entries, e.name.text ≠ name.text)
    (b : Binding) : s.add name b =
      .ok (s.setCurrent { s.current with entries := s.current.entries ++ [⟨name, b⟩] }) := by
  rw [Scopes.add, Scope.add_of_forall_ne h b]
  rfl

/-- A name that is not new there is refused. -/
theorem add_of_mem (hkept : Chronicle topLevel dedup events s.levels) {name : Name}
    {e : Scope.Entry} (he : e ∈ s.current.entries) (hname : e.name.text = name.text) (b : Binding) :
    s.add name b = .error (.duplicate name.text e.name.span name.span) := by
  rw [levels_eq_cons] at hkept
  rw [Scopes.add, Scope.add_of_mem hkept.1.names he hname b]
  rfl

/-- **What a lookup leaves** in the scopes from some scope on, where `inside`
are those that it has passed through. -/
theorem chronicle_captureIn (hb : s.resolve x = some b) {inside inner : List Scope}
    (hinner : s.inner = inside ++ inner) (hinside : ∀ scope ∈ inside, scope.own? x = none)
    (h : Chronicle s.topLevel s.dedup events (inner ++ [s.root])) :
    Chronicle s.topLevel s.dedup (events ++ [⟨s, .get x⟩])
      (captureIn s.dedup x b inner ++ [s.root]) := by
  induction inner generalizing inside with
  | nil =>
    refine h.quiet fun depth hdepth => ⟨rfl, rfl, if_neg fun hpos => ?_⟩
    exact absurd hpos.1 (by simpa using hdepth)
  | cons scope outer ih =>
    have hlevels : s.levels = (inside ++ [scope]) ++ (outer ++ [s.root]) := by simp [levels, hinner]
    rw [captureIn]
    cases hown : scope.own? x with
    -- the lookup ends here, so nothing is captured from this scope on
    | some b' =>
      refine h.quiet fun depth hdepth => ⟨rfl, rfl, if_neg fun hpassed => ?_⟩
      have hscope := hpassed.2 scope
        (mem_take_levels hlevels (Nat.le_of_lt_succ hdepth) (by simp))
      rw [hown] at hscope
      cases hscope
    | none =>
      have hpassed : ∀ t ∈ inside ++ [scope], t.own? x = none :=
        List.forall_mem_append.mpr ⟨hinside, List.forall_mem_singleton.mpr hown⟩
      have hnearest : nearest s.topLevel x (outer ++ [s.root]) = some b := by
        rw [← nearest_append hpassed, ← hlevels, ← resolve_eq_nearest, hb]
      have hcapture : Event.capture? (outer ++ [s.root]).length ⟨s, .get x⟩ = some ⟨x, b⟩ := by
        have htake : s.levels.take (s.levels.length - (outer ++ [s.root]).length) =
            inside ++ [scope] := by
          rw [hlevels, List.length_append, Nat.add_sub_cancel, List.take_left]
        rw [Event.capture?, if_pos ⟨by simp, htake ▸ hpassed⟩, hb, Option.map_some]
      rw [List.cons_append] at h ⊢
      refine ⟨(h.1.record rfl rfl hcapture (by simp) hnearest).congr ?_ fun y => ?_, ?_⟩
      · rw [List.length_append, length_captureIn, List.length_append]
      · rw [nearest, List.findSome?_append, findSome?_captureIn, ← List.findSome?_append, nearest]
      · exact ih (by simp [hinner]) hpassed h.2

/-- **One operation**: the scopes are kept.

There is a case for each operation. Opening a scope adds one that has seen
nothing. Leaving one drops what it remembers along with it. Introducing a name
is an event of the innermost scope alone, and since the innermost scope is
around no other, no capture is affected. A lookup changes what scopes have
captured, and not what they say. -/
theorem chronicle_after (h : Chronicle s.topLevel s.dedup events s.levels) (op : Op) :
    Chronicle s.topLevel s.dedup (events ++ [⟨s, op⟩]) (s.after op).levels := by
  cases op with
  | push =>
    refine ⟨Kept.opened (decide_eq_true rfl), h.quiet fun depth hdepth => ⟨?_, rfl, rfl⟩⟩
    exact decide_eq_false (Nat.ne_of_gt hdepth)
  | pop =>
    have hquiet : Chronicle s.topLevel s.dedup (events ++ [⟨s, .pop⟩]) s.levels :=
      h.quiet fun _ _ => ⟨rfl, rfl, rfl⟩
    obtain ⟨topLevel, dedup, inner, root⟩ := s
    cases inner with
    | nil => exact hquiet
    | cons scope outer => exact hquiet.2
  | resolve x => exact h.quiet fun _ _ => ⟨rfl, rfl, rfl⟩
  | add name b =>
    -- a name that is new is an event of the innermost scope, and any other is none
    by_cases hnew : ∀ e ∈ s.current.entries, e.name.text ≠ name.text
    · have hentry (depth : Nat) : Event.introduced? depth ⟨s, .add name b⟩ =
          if s.inner.length = depth then some ⟨name, b⟩ else none := by
        simp only [Event.introduced?, and_iff_left hnew]
      rw [after, add_of_forall_ne hnew b]
      show Chronicle _ _ _ (s.setCurrent _).levels
      rw [levels_setCurrent]
      rw [levels_eq_cons] at h
      refine ⟨h.1.add rfl ?_ rfl hnew, h.2.quiet fun depth hdepth => ⟨rfl, ?_, rfl⟩⟩
      · rw [hentry, if_pos s.length_tail_levels.symm]
      · rw [hentry, if_neg (s.length_tail_levels ▸ Nat.ne_of_gt hdepth)]
    · obtain ⟨e, he, hname⟩ : ∃ e ∈ s.current.entries, e.name.text = name.text := by
        simpa using hnew
      rw [after, add_of_mem h he hname b]
      refine h.quiet fun depth _ => ⟨rfl, if_neg fun hnew => ?_, rfl⟩
      exact hnew.2 e he hname
  | get x =>
    cases hb : s.resolve x with
    | none =>
      have hget : s.get x = none := by simp [Scopes.get, hb]
      rw [after, hget]
      exact h.quiet fun depth _ => ⟨rfl, rfl, by simp [Event.capture?, hb]⟩
    | some b =>
      have hget : s.get x = some (b, { s with inner := captureIn s.dedup x b s.inner }) := by
        simp [Scopes.get, hb]
      rw [after, hget]
      exact chronicle_captureIn hb (List.nil_append _).symm (by simp) h

/-- The top level and the way captures are kept stay as they are. -/
theorem isolated_after (s : Scopes) (op : Op) : (s.after op).isolated = s.isolated := by
  cases op with
  | push | pop | resolve x => rfl
  | add name b =>
    rw [after]
    cases hadd : s.add name b with
    | error d => rfl
    | ok t => exact isolated_add hadd
  | get x =>
    rw [after]
    cases hget : s.get x with
    | none => rfl
    | some found => exact isolated_get hget

/-- **Any number of operations**: the scopes are kept. -/
theorem chronicle_run (h : Chronicle s.topLevel s.dedup events s.levels) (ops : List Op) :
    Chronicle s.topLevel s.dedup (events ++ history s ops) (run s ops).levels ∧
      (run s ops).isolated = s.isolated := by
  induction ops generalizing s events with
  | nil =>
    rw [history, List.append_nil]
    exact ⟨h, rfl⟩
  | cons op ops ih =>
    have hafter := isolated_after s op
    have htopLevel : (s.after op).topLevel = s.topLevel :=
      (congrArg Scopes.topLevel hafter :)
    have hdedup : (s.after op).dedup = s.dedup := (congrArg Scopes.dedup hafter :)
    obtain ⟨hkept, hisolated⟩ := ih (htopLevel ▸ hdedup ▸ chronicle_after h op)
    rw [List.append_assoc, htopLevel, hdedup] at hkept
    exact ⟨hkept, hisolated.trans hafter⟩

end Steps

/-- **A chain is in order**: what it says, and what it remembers, is what its
history calls for. -/
structure Orderly (topLevel : List String) (dedup : Bool) (events : List Event) (s : Scopes) :
    Prop where
  topLevel_eq : s.topLevel = topLevel
  dedup_eq : s.dedup = dedup
  /-- A name refers to what the nearest scope says that introduces it, else to
  what the top level does. -/
  resolve : ∀ x, s.resolve x = nearest topLevel x s.levels
  /-- Looking up a name says the same, and leaves a capture in the scopes it
  passes through, where it is not there already, and nothing anywhere else. -/
  get : ∀ x, s.get x = (nearest topLevel x s.levels).map fun b => (b, { s with
    inner := (s.passed x).map (fun scope =>
        if dedup = true ∧ ⟨x, b⟩ ∈ scope.captures then scope else scope.capture ⟨x, b⟩) ++
      s.inner.drop (s.passed x).length })
  /-- Lookups that leave no trace, and those that find nothing, change
  nothing. -/
  still : ∀ x, s.after (.resolve x) = s ∧
    (nearest topLevel x s.levels = none → s.after (.get x) = s)
  /-- Every scope has the entries and captures that the history says. -/
  kept : ∀ inside scope outside, s.levels = inside ++ scope :: outside →
    Kept topLevel dedup events scope outside
  /-- A name is new in the innermost scope, and is introduced there. -/
  add : ∀ name b, (∀ e ∈ s.current.entries, e.name.text ≠ name.text) → s.add name b =
    .ok (s.setCurrent { s.current with entries := s.current.entries ++ [⟨name, b⟩] })
  /-- Or it is refused with the place where it was introduced and the place
  where it is again, and nothing changes. -/
  refused : ∀ name b, ∀ e ∈ s.current.entries, e.name.text = name.text →
    s.add name b = .error (.duplicate name.text e.name.span name.span) ∧
      s.after (.add name b) = s

section

variable {s : Scopes} {events : List Event} {x : String} {b : Binding}

/-- A capture that is there already is the one that a lookup would leave. -/
theorem record_of_mem_passed (h : Chronicle s.topLevel s.dedup events s.levels)
    (hb : s.resolve x = some b) {scope : Scope} (hscope : scope ∈ s.passed x) :
    scope.record s.dedup x b =
      if s.dedup = true ∧ ⟨x, b⟩ ∈ scope.captures then scope else scope.capture ⟨x, b⟩ := by
  obtain ⟨inside, between, hpassed⟩ := List.append_of_mem hscope
  have hlevels : s.levels = inside ++ scope ::
      (between ++ s.inner.drop (s.passed x).length ++ [s.root]) := by
    have hinner : s.inner = s.passed x ++ s.inner.drop (s.passed x).length :=
      (List.prefix_iff_eq_append.mp (List.takeWhile_prefix _)).symm
    rw [levels, hinner, hpassed]
    simp
  have hown : ∀ t ∈ inside ++ [scope], t.own? x = none := fun t ht => by
    have hmem : t ∈ s.passed x := by
      rw [hpassed]
      simp only [List.mem_append, List.mem_cons] at ht ⊢
      tauto
    simpa using List.mem_takeWhile_imp hmem
  rw [resolve_eq_nearest, hlevels, List.append_cons, nearest_append hown] at hb
  exact (hlevels ▸ h).kept.record_eq hb

/-- What a lookup returns and leaves, in one equation. -/
theorem get_eq (h : Chronicle s.topLevel s.dedup events s.levels) (x : String) :
    s.get x = (nearest s.topLevel x s.levels).map fun b => (b, { s with
      inner := (s.passed x).map (fun scope =>
          if s.dedup = true ∧ ⟨x, b⟩ ∈ scope.captures then scope else scope.capture ⟨x, b⟩) ++
        s.inner.drop (s.passed x).length }) := by
  rw [← resolve_eq_nearest]
  cases hb : s.resolve x with
  | none => simp [Scopes.get, hb]
  | some b =>
    rw [Option.map_some, ← List.map_congr_left fun scope => record_of_mem_passed h hb, passed,
      ← captureIn_eq]
    simp [Scopes.get, hb]

end

/-- At the root nothing has been remembered yet. -/
theorem chronicle_start (topLevel : List String) (dedup : Bool) :
    Chronicle topLevel dedup [] (start topLevel dedup).levels := by
  refine ⟨⟨rfl, List.nodup_nil, ?_, fun c hc => ?_, fun _ => List.nodup_nil⟩, trivial⟩
  · cases dedup <;> rfl
  · exact absurd hc List.not_mem_nil

/-- **A chain is always in order**, whatever is done from its root on.

Every scope is kept as the history has it, since one operation keeps it so
(`chronicle_after`), and this is all that is remembered. What is looked up is
read off the scopes as they are now. It agrees with what was captured before,
because names are introduced in the innermost scope only: as long as a scope is
open, what the scopes around it say does not change. So it is right to keep only
the first capture of a name. -/
theorem always_orderly (topLevel : List String) (dedup : Bool) (ops : List Op) :
    Orderly topLevel dedup (history (start topLevel dedup) ops)
      (run (start topLevel dedup) ops) := by
  obtain ⟨hkept, hisolated⟩ :=
    chronicle_run (s := start topLevel dedup) (chronicle_start topLevel dedup) ops
  rw [List.nil_append] at hkept
  have htopLevel : (run (start topLevel dedup) ops).topLevel = topLevel :=
    (congrArg Scopes.topLevel hisolated :)
  have hdedup : (run (start topLevel dedup) ops).dedup = dedup :=
    (congrArg Scopes.dedup hisolated :)
  generalize run (start topLevel dedup) ops = s at *
  obtain rfl := htopLevel
  obtain rfl := hdedup
  refine ⟨rfl, rfl, s.resolve_eq_nearest, get_eq hkept, fun x => ⟨rfl, fun hnone => ?_⟩,
    fun inside scope outside hlevels => (hlevels ▸ hkept).kept,
    fun name b hnew => add_of_forall_ne hnew b, fun name b e he hname => ?_⟩
  · rw [after, get_eq hkept, hnone]
    rfl
  · have hadd := add_of_mem hkept he hname b
    refine ⟨hadd, ?_⟩
    rw [after, hadd]
    rfl

end Scopes

end Stagewise
