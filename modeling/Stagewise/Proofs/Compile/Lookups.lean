import Stagewise.Proofs.Analysis.Tally
import Stagewise.Proofs.Compile.Run

/-!
# Dependencies are what is looked up

Two walks go over a declaration. One gathers the names that are used in it,
before anything is known, and keeps a list of the names that are bound around.
The other checks it, and looks names up in a chain of scopes. What the first
gathers decides on the schedule, and it is the second that has to get along with
the schedule, so they had better agree.

They do. What is looked up inside a declaration without anything to expand is
what was gathered, or a part of it if the declaration is refused, each name as
often as it is used (`lookups_perm_dependencies`). It is so wherever the
analysis ends, and in the order in which the names are written.
-/

namespace Stagewise

open Analysis

variable {β : Type} {ctx : Context β} {b : β} {start s : State β} {m : Source.Module}
  {backend : Backend β} {options : Options} {item : Source.Item}

namespace Compile

/-! ## The loop -/

/-- **One round keeps aside**: nothing is under analysis before. -/
theorem analyze_keeps (hstart : Entered start) (hc : Course ctx start s) (hs : Checking ctx [] s)
    {d : Declaration} (hd : d ∈ ctx.declarations.entries) :
    Keeps ctx start [] [] s (analyze ctx d s) := by
  by_cases hdone : Settled s d.name
  · rw [analyze_of_settled hd hdone]
    exact Aside.refl s
  · exact analyzeWithin_keeps hstart ctx.declarations.count hc hs (fun x hx => by cases hx)
      (.unbidden hs.active) hd (standing_of_not_settled hs hdone) (Nat.le_add_right _ _)

/-- **The loop keeps aside.** -/
theorem settleAll_keeps (hstart : Entered start) {g : Stage.Graph} (order : List Nat)
    (hc : Course ctx start s) (hs : Checking ctx [] s)
    (hg : ∀ i, (g.node? i >>= (·.declaration) >>= ctx.declarations.find?)
      = ctx.declarations.entries[i]?) :
    Keeps ctx start [] [] s (settleAll ctx g order s) := by
  unfold settleAll
  induction order generalizing s with
  | nil => exact Aside.refl s
  | cons i order ih =>
    rw [List.forM_eq_forM, List.forM_cons, hg i]
    cases hi : ctx.declarations.entries[i]? with
    | none => exact ih hc hs
    | some d =>
      have hd := List.mem_of_getElem? hi
      refine .bind (analyze_keeps hstart hc hs hd) fun _ t ht => ?_
      have hends := analyze_ends hs hd
      rw [show analyze ctx d s = .ok () t from ht] at hends
      cases hends with
      | through course idle done => exact ih (hc.trans course) ⟨hs.book.course course, idle⟩

/-- What keeps aside has kept aside where it ends. -/
theorem aside_endState {kept opened : List String} {r : EStateM.Result Halt (State β) Unit}
    (h : Keeps ctx start kept opened s r) : Aside ctx start kept opened s (endState r) := by
  cases r with
  | ok a t => exact h
  | error e t => exact h

namespace Plan

/-- The declarations of a plan that are no built-ins are those of the module. -/
theorem source_mem_entries (p : Plan m) : .source item ∈ p.declarations.entries ↔ item ∈ m := by
  rw [p.entries_eq, Declarations.entriesOf]
  simp

/-- **The loop starts in a state**: nothing is known there, and the built-ins
are in the outermost scope. -/
def Starts (p : Plan m) (backend : Backend β) (b : β) (options : Options) (start : State β) :
    Prop :=
  ∃ scopes : Scopes, rootScopes ((p.context backend options).start b).scopes = .ok scopes ∧
    start = { (p.context backend options).start b with scopes }

/-- Where the loop starts everything is in order, and nothing was said. -/
theorem Starts.sound {p : Plan m} (h : p.Starts backend b options start) :
    Sound (p.context backend options) b start ∧ start.transcript = [] := by
  obtain ⟨scopes, hscopes, rfl⟩ := h
  obtain ⟨scopes', hfaithful, hscopes'⟩ := p.exists_faithful backend b options
  obtain rfl := Except.ok.inj (hscopes.symm.trans hscopes')
  exact ⟨sound_start hfaithful, rfl⟩

/-- **What comes of a run**: requests have their places, and the lookups of
declarations agree with their source. Built-ins look up nothing. -/
theorem exists_attended (p : Plan m) (backend : Backend β) (b : β) (options : Options)
    (order : List Nat) :
    ∃ start, p.Starts backend b options start ∧
      Attended (p.context backend options) start (endState (p.run backend b options order)) ∧
      (∀ item ∈ m, Tallied (endState (p.run backend b options order)) item) ∧
      ∀ x, ¬HasSource (p.context backend options) x →
        lookups (endState (p.run backend b options order)).resolutions x = [] := by
  obtain ⟨scopes, hfaithful, hscopes⟩ := p.exists_faithful backend b options
  have hs : Sound (p.context backend options) b _ := sound_start hfaithful
  have hstart : Entered { (p.context backend options).start b with scopes } :=
    fun x y hxy => absurd hxy List.not_mem_nil
  have hkeeps := settleAll_keeps hstart order .refl ⟨hs.book, rfl⟩ (find?_node? (p := p))
  rw [run, hscopes]
  have haside := aside_endState hkeeps
  refine ⟨_, ⟨scopes, hscopes, rfl⟩, haside.requests fun before e after hsplit => ?_,
    fun item hitem => ?_, haside.silent⟩
  · exact (List.append_ne_nil_of_right_ne_nil before (List.cons_ne_nil e after) hsplit.symm).elim
  · refine haside.tallied item (p.source_mem_entries.mpr hitem) List.not_mem_nil ?_
    exact ⟨fun _ => List.nil_prefix, fun _ hdefined => absurd hdefined List.not_mem_nil⟩

end Plan

end Compile

/-!
## Dependencies

What is gathered is kept in two lists, one for each way to use a name, and what
is looked up is one list in the order of the source. So they can only be
compared up to the order, and this is what `List.Subperm` and `List.Perm` are
for: every name as often as it is used.
-/

namespace Dependencies

/-- **The names that a declaration depends on**, first those that it uses as a
type and then those that it uses as a value. -/
def namesOf (deps : Dependencies) (declaration : String) : List String :=
  (deps.names .type declaration ++ deps.names .value declaration).map (·.text)

/-- If there is nothing to expand then these are the names that are
mentioned. -/
theorem namesOf_perm_freeNames {ds : Declarations} (entry : .source item ∈ ds.entries)
    (hplain : item.isPlain = true) :
    ((collect ds).namesOf item.name.text).Perm (Source.freeNames item.parts) := by
  have huses : (collect ds).uses.lookup item.name.text = some item.uses := lookup_collect entry
  have hroles : item.uses.filter (·.role = .value)
      = item.uses.filter (fun u => !decide (u.role = .type)) := by
    refine List.filter_congr fun u _ => ?_
    cases u.role <;> rfl
  have hperm := List.filter_append_perm (fun u : Use => decide (u.role = .type)) item.uses
  rw [← hroles] at hperm
  rw [namesOf, names, names, huses, Option.getD_some, ← List.map_append, List.map_map,
    ← Source.map_filterMap_use? (Source.Item.plainParts hplain), ← Source.Item.uses_eq]
  exact hperm.map _

end Dependencies

/-- **What is looked up inside a declaration is what it depends on.** For a
declaration with nothing to expand, the names that were looked up in it as
top-level declarations, wherever the analysis has ended, are among the names
that it depends on, each as often as it is used. If the declaration is defined
then they are all of them.

Both walks go through the same parts of the source, in the same order, and ask
of each name whether it is bound around it. The one keeps a list of bound names,
the other a chain of scopes with locals in it, and these fit each other at every
place (`Fits`). The names come in two lists by how they are used, and so the
agreement is up to the order. -/
theorem lookups_perm_dependencies (m : Source.Module) (p : Compile.Plan m) (backend : Backend β)
    (b : β) (options : Options) (item : Source.Item) (hitem : item ∈ m)
    (hplain : item.isPlain = true) :
    (lookups (p.last backend b options).resolutions item.name.text).Subperm
      ((Dependencies.collect p.declarations).namesOf item.name.text) ∧
    (item.name.text ∈ (p.last backend b options).defined →
      (lookups (p.last backend b options).resolutions item.name.text).Perm
        ((Dependencies.collect p.declarations).namesOf item.name.text)) := by
  obtain ⟨-, -, -, htallied, -⟩ := p.exists_attended backend b options p.schedule.order
  have hparts := Source.Item.plainParts hplain
  have hperm := Dependencies.namesOf_perm_freeNames (p.source_mem_entries.mpr hitem) hplain
  refine ⟨?_, fun hdefined => ?_⟩
  · have hle := (htallied item hitem).le hparts
    exact hle.sublist.subperm.trans hperm.symm.subperm
  · have heq := (htallied item hitem).eq hparts hdefined
    exact heq ▸ hperm.symm

/-- A function with a variable that hides a constant, and a closure whose
parameter hides the one of the function. The constant is used once, by the body
of the variable. -/
def hider : Source.Function :=
  { span := .nowhere, name := .unplaced "f"
    params := [⟨.unplaced "n", .var (.unplaced "Int")⟩], result := .var (.unplaced "Int")
    body :=
      ⟨.nowhere,
        [.bind .nowhere (.unplaced "k") (.var (.unplaced "Int")) (.ofExpr (.var (.unplaced "k"))),
          .assign .nowhere (.unplaced "k") .addAssign (.ofExpr (.var (.unplaced "n"))),
          .eval (.call .nowhere
            (.closure .nowhere [⟨.unplaced "n", .var (.unplaced "Int")⟩] (.var (.unplaced "Int"))
              (.ofExpr (.binary .nowhere .add (.var (.unplaced "n")) (.var (.unplaced "k")))))
            [.var (.unplaced "k")])]⟩ }

/-- The function, along with the constant. -/
def shade : Source.Module :=
  [.function hider,
    .constant
      { span := .nowhere, name := .unplaced "k", ascription := .var (.unplaced "Int")
        body := .ofExpr (.int .nowhere 1) }]

/-- The name of the constant is looked up once, by the body of the variable that
hides it. What comes after refers to the variable. -/
theorem shade_lookups : ∃ p : Compile.Plan shade,
    "f" ∈ (p.last (Buffer.backend none) { evaluator := () } {}).defined ∧
    lookups (p.last (Buffer.backend none) { evaluator := () } {}).resolutions "f"
      = ["Int", "Int", "Int", "k", "Int", "Int"] ∧
    (lookups (p.last (Buffer.backend none) { evaluator := () } {}).resolutions "f").Perm
      ((Dependencies.collect p.declarations).namesOf "f") := by
  have hrun : (Compile.Plan.of? shade).map (fun p =>
      (decide ("f" ∈ (p.last (Buffer.backend none) { evaluator := () } {}).defined),
        lookups (p.last (Buffer.backend none) { evaluator := () } {}).resolutions "f"))
      = some (true, ["Int", "Int", "Int", "k", "Int", "Int"]) := by decide +kernel
  obtain ⟨p, -, hp⟩ := Option.map_eq_some_iff.mp hrun
  obtain ⟨hdefined, hlookups⟩ := Prod.mk.inj hp
  have hdefined := of_decide_eq_true hdefined
  exact ⟨p, hdefined, hlookups, (lookups_perm_dependencies shade p (Buffer.backend none)
    { evaluator := () } {} (.function hider) List.mem_cons_self rfl).2 hdefined⟩

end Stagewise
