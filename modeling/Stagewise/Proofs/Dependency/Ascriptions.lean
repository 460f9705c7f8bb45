import Stagewise.Proofs.Dependency.StageGraph
import Stagewise.Proofs.Source.Parts

/-!
# Names in ascriptions

An ascription is evaluated before the declaration can be checked, and whatever
its evaluation runs has to be there by then. So a declaration comes strictly
after what it uses as a type. This would settle the matter if all names inside
an ascription were used as types. They are not. An ascription may call a
closure, the body of a closure is a body wherever it is written, and names in
bodies are used as values (`lateType_same_stage`).

What is used as a type are the names that stand in an ascription at once. They
are scheduled as they should be. The others inside an ascription leave a
requirement, or even nothing if it is a function that is used by a function
(`ascribed_names_scheduled`).
-/

namespace Stagewise

open Source (Item Place)

variable {ds : Declarations} {item : Item} {n : Name} {i j : Nat}

/-- **A declaration mentions a name in a place** where it is not the name of a
local. -/
def Source.Item.Mentions (item : Item) (q : Place) (n : Name) : Prop :=
  (q, .name n) ∈ item.parts ∧ n.text ∉ q.bound

/-- What is used by a declaration with nothing to expand are the names that it
mentions. -/
theorem Source.Item.mem_uses_iff (hplain : item.isPlain = true) {role : Role} :
    ⟨n, role⟩ ∈ item.uses ↔ ∃ q, item.Mentions q n ∧ q.role = role := by
  rw [Item.uses_eq, List.mem_filterMap]
  constructor
  · rintro ⟨⟨q, n' | a | m⟩, hmem, huse⟩
    · obtain ⟨hfree, heq⟩ := Option.ite_none_left_eq_some.mp huse
      obtain ⟨rfl, rfl⟩ := Use.mk.inj (Option.some.inj heq)
      exact ⟨q, ⟨hmem, hfree⟩, rfl⟩
    · cases huse
    · exact absurd hmem (Item.plainParts hplain q m)
  · rintro ⟨q, ⟨hmem, hfree⟩, rfl⟩
    exact ⟨(q, .name n), hmem, if_neg hfree⟩

namespace Dependencies

/-- What is collected of a declaration under a role are its uses in that
role. -/
theorem mem_names_collect (entry : .source item ∈ ds.entries) {role : Role} :
    n ∈ (collect ds).names role item.name.text ↔ ⟨n, role⟩ ∈ item.uses := by
  have huses : (collect ds).uses.lookup item.name.text = some item.uses := lookup_collect entry
  rw [names, huses, Option.getD_some, List.mem_map]
  constructor
  · rintro ⟨⟨n', role'⟩, hmem, rfl⟩
    obtain ⟨hmem, hrole⟩ := List.mem_filter.mp hmem
    exact of_decide_eq_true hrole ▸ hmem
  · intro hmem
    exact ⟨_, List.mem_filter.mpr ⟨hmem, decide_eq_true rfl⟩, rfl⟩

/-- The names that are used as types are those that stand in an ascription at
once. -/
theorem mem_type_names_iff (entry : .source item ∈ ds.entries) (hplain : item.isPlain = true) :
    n ∈ (collect ds).names .type item.name.text ↔
      ∃ q, item.Mentions q n ∧ q.ascribed = true ∧ q.role = .type := by
  rw [mem_names_collect entry, Item.mem_uses_iff hplain]
  refine exists_congr fun q => and_congr_right fun hmentions => ?_
  have hinside := item.nested.inside q _ hmentions.1
  exact (and_iff_right_of_imp (hinside.ascribed_of_role fun h => by cases h)).symm

/-- What is used in a role and declared is depended on. -/
theorem mem_targets {deps : Dependencies} {role : Role} {x : String} (h : n ∈ deps.names role x)
    (hj : ds.index? n.text = some j) : n.text ∈ deps.targets ds role x := by
  refine List.mem_filter.mpr ⟨List.mem_map_of_mem h, Declarations.declares_iff.mpr ?_⟩
  exact List.mem_of_getElem? (Declarations.index?_eq_some_iff.mp hj)

/-- **The names inside ascriptions, and when they are scheduled.** In a
declaration with nothing to expand, those that stand in an ascription at once
are exactly the ones that are used as types. What they name is in a strictly
earlier stage. A name that is inside an ascription, but in the body of a
closure, is used as a value like any other name in a body: what it names is
required, unless it is a function that is used by a function and does not depend
on that through a type.

The role of a name is a matter of the place it stands in: going into an
ascription sets it to that of a type, and going into a body sets it back,
whether the body is itself inside an ascription or not. So the names that stand
in an ascription at once have the role of types, and they leave the stricter
constraint in the stage graph. A schedule respects the constraints it was made
from. For the others the collected uses say no more than for a name in any body,
and whether there is a requirement is what the stage graph says about such
uses. -/
theorem ascribed_names_scheduled (ds : Declarations) (item : Item)
    (entry : .source item ∈ ds.entries) (hplain : item.isPlain = true) :
    (∀ n, n ∈ (collect ds).names .type item.name.text ↔
      ∃ q, item.Mentions q n ∧ q.ascribed = true ∧ q.role = .type) ∧
    ∀ q n i j, item.Mentions q n → q.ascribed = true → ds.index? item.name.text = some i →
      ds.index? n.text = some j →
      (q.role = .type → j ∈ ((collect ds).stageGraph ds).dependencies .after i ∧
        ∀ s, ((collect ds).stageGraph ds).schedule = .ok s → s.stageOf j < s.stageOf i) ∧
      (q.role = .value → n ∈ (collect ds).names .value item.name.text ∧
        (j ∈ ((collect ds).stageGraph ds).dependencies .requires i ↔
          (ds.isFunction item.name.text = true → ds.isFunction n.text = true →
            (collect ds).DependsThroughType ds n.text item.name.text))) := by
  refine ⟨fun n => mem_type_names_iff entry hplain, ?_⟩
  intro q n i j hmentions hascribed hi hj
  refine ⟨fun hrole => ?_, fun hrole => ?_⟩
  · have hnames := (mem_type_names_iff entry hplain).mpr ⟨q, hmentions, hascribed, hrole⟩
    have hafter : j ∈ ((collect ds).stageGraph ds).dependencies .after i :=
      (mem_dependencies_iff hi hj).mpr (mem_targets hnames hj)
    refine ⟨hafter, fun s hs => ?_⟩
    exact (Stage.Graph.runs_of_schedule_eq_ok hs).respects.after i j hafter
  · have hnames := (mem_names_collect entry).mpr
      ((Item.mem_uses_iff hplain).mpr ⟨q, hmentions, hrole⟩)
    exact ⟨hnames, (mem_dependencies_iff hi hj).trans (and_iff_right (mem_targets hnames hj))⟩

/-!
## A type that is computed by a closure

The constant `a` is ascribed a closure that is called at once, and that returns
`T`. To evaluate the ascription `T` is needed, as much as if it was written
there. But it is written in the body of the closure.
-/

/-- A constant whose type is computed by a closure, from another constant. -/
def lateItem : Item :=
  .constant
    { span := .nowhere, name := .unplaced "a"
      ascription := .call .nowhere
        (.closure .nowhere [] (.var (.unplaced "Type")) (.ofExpr (.var (.unplaced "T")))) []
      body := .ofExpr (.int .nowhere 1) }

/-- The two constants. -/
def lateType : Source.Module :=
  [.constant
    { span := .nowhere, name := .unplaced "T", ascription := .var (.unplaced "Type")
      body := .ofExpr (.var (.unplaced "Int")) },
    lateItem]

/-- The place of the body of the closure. -/
def latePlace : Place := { ascribed := true }

/-- The name stands in the body of the closure, inside the ascription. -/
theorem lateItem_mentions : lateItem.Mentions latePlace (.unplaced "T") :=
  ⟨.tail _ (.tail _ (.tail _ (.head _))), List.not_mem_nil⟩

/-- Their declarations. -/
def lateDeclarations : Declarations :=
  .ofEntries (Declarations.entriesOf lateType) (by decide)

/-- The schedule that is found has both in one stage. -/
theorem exists_lateSchedule :
    ∃ s, ((collect lateDeclarations).stageGraph lateDeclarations).schedule = .ok s ∧
      s.stageOf 9 = s.stageOf 10 := by
  have hstages : (((collect lateDeclarations).stageGraph lateDeclarations).schedule.toOption.map
      fun s => (s.stageOf 9, s.stageOf 10)) = some (1, 1) := by decide +kernel
  cases hs : ((collect lateDeclarations).stageGraph lateDeclarations).schedule with
  | error e =>
    rw [hs] at hstages
    cases hstages
  | ok s =>
    rw [hs] at hstages
    obtain ⟨h9, h10⟩ := Prod.mk.inj (Option.some.inj hstages)
    exact ⟨s, rfl, h9.trans h10.symm⟩

/-- **A name inside an ascription that is not used as a type.** What it names is
what the ascription is evaluated to, and it is scheduled for the same stage. -/
theorem lateType_same_stage :
    Declarations.collect lateType = .ok lateDeclarations ∧
    lateItem ∈ lateType ∧ lateItem.isPlain = true ∧
    lateItem.Mentions latePlace (.unplaced "T") ∧ latePlace.ascribed = true ∧
    .unplaced "T" ∉ (collect lateDeclarations).names .type "a" ∧
    ∃ i j, lateDeclarations.index? "a" = some i ∧ lateDeclarations.index? "T" = some j ∧
      j ∉ ((collect lateDeclarations).stageGraph lateDeclarations).dependencies .after i ∧
      ∃ s, ((collect lateDeclarations).stageGraph lateDeclarations).schedule = .ok s ∧
        s.stageOf j = s.stageOf i := by
  exact ⟨dif_pos _, .tail _ (.head _), rfl, lateItem_mentions, rfl, by decide +kernel,
    10, 9, by decide +kernel, by decide +kernel, by decide +kernel, exists_lateSchedule⟩

/-- The requirement is there all the same, so within the stage the two are in
the right order. -/
theorem lateType_required :
    .source lateItem ∈ lateDeclarations.entries ∧ lateItem.isPlain = true ∧
    lateItem.Mentions latePlace (.unplaced "T") ∧ latePlace.ascribed = true ∧
    .unplaced "T" ∈ (collect lateDeclarations).names .value "a" ∧
    9 ∈ ((collect lateDeclarations).stageGraph lateDeclarations).dependencies .requires 10 := by
  have hentry : .source lateItem ∈ lateDeclarations.entries :=
    List.mem_append_right _ (.tail _ (.head _))
  have ha : lateDeclarations.index? "a" = some 10 := by decide +kernel
  have hT : lateDeclarations.index? "T" = some 9 := by decide +kernel
  obtain ⟨hnames, hrequires⟩ := ((ascribed_names_scheduled lateDeclarations lateItem hentry rfl).2
    latePlace (.unplaced "T") 10 9 lateItem_mentions rfl ha hT).2 rfl
  -- a constant that uses a constant
  exact ⟨hentry, rfl, lateItem_mentions, rfl, hnames, hrequires.mpr fun h => by cases h⟩

end Dependencies

end Stagewise
