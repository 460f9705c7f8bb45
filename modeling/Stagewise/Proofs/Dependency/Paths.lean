import Mathlib.Logic.Relation
import Stagewise.Dependency.Graph
import Stagewise.Proofs.Declaration.Lookup
import Stagewise.Proofs.Reach

/-!
# Paths of dependencies

One declaration depends on another if it uses its name, as a type or as a value.
A path of such steps matters in two ways. That there is one says that the first
declaration can be involved in what becomes of the last. That a use **as a
type** lies on it says more, that the last has to be evaluated before the first
can even be checked.

`Dependencies.evaluatedBefore` searches for paths of the second kind. It goes
through pairs of a declaration and whether a use as a type lies behind, and what
it finds is exactly `Dependencies.DependsThroughType`.
-/

namespace Stagewise.Dependencies

open Relation

variable {deps : Dependencies} {ds : Declarations} {x y z : String}

/-- **One declaration depends on another**: it uses its name. -/
def DependsOn (deps : Dependencies) (ds : Declarations) (x y : String) : Prop :=
  ∃ role, y ∈ deps.targets ds role x

/-- **A path with a use as a type on it** leads from one declaration to
another. -/
def DependsThroughType (deps : Dependencies) (ds : Declarations) (x z : String) : Prop :=
  ∃ a b, ReflTransGen (deps.DependsOn ds) x a ∧ b ∈ deps.targets ds .type a ∧
    ReflTransGen (deps.DependsOn ds) b z

/-- What is depended on is declared. -/
theorem mem_names_of_mem_targets {role : Role} (h : y ∈ deps.targets ds role x) : y ∈ ds.names :=
  Declarations.declares_iff.mp (List.mem_filter.mp h).2

/-- A path may go on after the use as a type. -/
theorem DependsThroughType.tail (h : deps.DependsThroughType ds x y) (hz : deps.DependsOn ds y z) :
    deps.DependsThroughType ds x z := by
  obtain ⟨a, b, hxa, hab, hby⟩ := h
  exact ⟨a, b, hxa, hab, hby.tail hz⟩

/-- A step of the search is a use, and a use as a type is remembered. -/
theorem mem_step {b c : Bool} :
    (y, c) ∈ deps.step ds (x, b) ↔
      (y ∈ deps.targets ds .type x ∧ c = true) ∨ (y ∈ deps.targets ds .value x ∧ c = b) := by
  simp only [step, List.mem_append, List.mem_map, Prod.mk.injEq]
  constructor
  · rintro (⟨_, hy, rfl, rfl⟩ | ⟨_, hy, rfl, rfl⟩)
    · exact .inl ⟨hy, rfl⟩
    · exact .inr ⟨hy, rfl⟩
  · rintro (⟨hy, rfl⟩ | ⟨hy, rfl⟩)
    · exact .inl ⟨y, hy, rfl, rfl⟩
    · exact .inr ⟨y, hy, rfl, rfl⟩

/-- The relation that the search follows. -/
def Follows (deps : Dependencies) (ds : Declarations) (p q : String × Bool) : Prop :=
  q ∈ deps.step ds p

/-- A dependency can be followed, with whatever lies behind. -/
theorem exists_follows {b : Bool} (h : deps.DependsOn ds x y) :
    ∃ c, deps.Follows ds (x, b) (y, c) ∧ (b = true → c = true) := by
  obtain ⟨role, hy⟩ := h
  cases role with
  | type => exact ⟨true, mem_step.mpr (.inl ⟨hy, rfl⟩), fun _ => rfl⟩
  | value => exact ⟨b, mem_step.mpr (.inr ⟨hy, rfl⟩), id⟩

/-- A path of dependencies can be followed by the search, and what lies behind
at its beginning still does at its end. -/
theorem exists_follows_path {b : Bool} (h : ReflTransGen (deps.DependsOn ds) x y) :
    ∃ c, ReflTransGen (deps.Follows ds) (x, b) (y, c) ∧ (b = true → c = true) := by
  induction h with
  | refl => exact ⟨b, .refl, id⟩
  | tail _ hs ih =>
    obtain ⟨c, hpath, hc⟩ := ih
    obtain ⟨d, hd, hcd⟩ := exists_follows (b := c) hs
    exact ⟨d, hpath.tail hd, fun hb => hcd (hc hb)⟩

/-- What the search remembers is a use as a type on the way. -/
theorem path_of_follows {p q : String × Bool} (h : ReflTransGen (deps.Follows ds) p q) :
    ReflTransGen (deps.DependsOn ds) p.1 q.1 ∧
      (q.2 = true → p.2 = true ∨ deps.DependsThroughType ds p.1 q.1) := by
  induction h with
  | refl => exact ⟨.refl, .inl⟩
  | @tail q r _ hs ih =>
    obtain ⟨hpath, htype⟩ := ih
    obtain ⟨hr, -⟩ | ⟨hr, hq⟩ := mem_step.mp hs
    · exact ⟨hpath.tail ⟨.type, hr⟩, fun _ => .inr ⟨q.1, r.1, hpath, hr, .refl⟩⟩
    · have hdep : deps.DependsOn ds q.1 r.1 := ⟨.value, hr⟩
      refine ⟨hpath.tail hdep, fun htrue => ?_⟩
      exact (htype (hq ▸ htrue)).imp id (fun h => h.tail hdep)

/-- The search stays among the declarations, so it can be said without them. -/
theorem mem_reach_step_iff {p q : String × Bool} :
    q ∈ reach (deps.step ds) (ds.names.flatMap fun d => [(d, false), (d, true)])
        (deps.step ds p) ↔ TransGen (deps.Follows ds) p q := by
  have hfresh : ∀ p q, deps.Follows ds p q →
      q ∈ ds.names.flatMap fun d => [(d, false), (d, true)] := by
    rintro p ⟨y, c⟩ hq
    have hy : y ∈ ds.names := by
      obtain ⟨h, -⟩ | ⟨h, -⟩ := mem_step.mp hq <;> exact mem_names_of_mem_targets h
    exact List.mem_flatMap.mpr ⟨y, hy, by cases c <;> simp⟩
  rw [mem_reach_iff, TransGen.head'_iff]
  constructor
  · rintro ⟨w, hw, -, hpath⟩
    exact ⟨w, hw, ReflTransGen.mono (fun _ _ h => h.1) _ _ hpath⟩
  · rintro ⟨w, hw, hpath⟩
    exact ⟨w, hw, hfresh p w hw, ReflTransGen.mono (fun a b h => ⟨h, hfresh a b h⟩) _ _ hpath⟩

/-- **What is evaluated before a declaration** is what it depends on through a
type. -/
theorem mem_evaluatedBefore : z ∈ deps.evaluatedBefore ds x ↔ deps.DependsThroughType ds x z := by
  have hpair : z ∈ deps.evaluatedBefore ds x ↔ TransGen (deps.Follows ds) (x, false) (z, true) := by
    rw [← mem_reach_step_iff]
    simp [evaluatedBefore]
  rw [hpair]
  -- a path to a pair that remembers a use splits at the use
  constructor
  · intro h
    exact ((path_of_follows h.to_reflTransGen).2 rfl).resolve_left Bool.false_ne_true
  · rintro ⟨a, b, hxa, hab, hbz⟩
    obtain ⟨c, hpath, -⟩ := exists_follows_path (b := false) hxa
    obtain ⟨e, hrest, he⟩ := exists_follows_path (b := true) hbz
    have hstep : deps.Follows ds (a, c) (b, true) := mem_step.mpr (.inl ⟨hab, rfl⟩)
    exact (TransGen.tail' hpath hstep).trans_left (he rfl ▸ hrest)

/-!
## Collected dependencies

What is collected of a module is a table from names to uses. As the names of
declarations are distinct, what the table has under a name are the uses of the
declaration of that name.
-/

/-- The uses that are collected of a declaration are the uses it makes. -/
theorem lookup_collect {d : Declaration} (hd : d ∈ ds.entries) :
    (collect ds).uses.lookup d.name = some d.uses := by
  unfold collect
  have hdistinct := ds.distinct
  generalize ds.entries = entries at hd hdistinct
  induction entries with
  | nil => exact absurd hd List.not_mem_nil
  | cons e entries ih =>
    rw [List.map_cons, List.nodup_cons] at hdistinct
    rw [List.map_cons, List.lookup_cons]
    obtain rfl | hd := List.mem_cons.mp hd
    · rw [beq_self_eq_true]
    · have hne : d.name ≠ e.name :=
        fun h => hdistinct.1 (h ▸ List.mem_map_of_mem hd)
      rw [beq_false_of_ne hne]
      exact ih hd hdistinct.2

/-- What a declaration depends on are the declared names that it uses. -/
theorem mem_targets_collect {d : Declaration} (hd : d ∈ ds.entries) {role : Role} :
    y ∈ (collect ds).targets ds role d.name ↔
      y ∈ ds.names ∧ ∃ u ∈ d.uses, u.role = role ∧ u.name.text = y := by
  rw [targets, names, lookup_collect hd, List.mem_filter, Declarations.declares_iff, and_comm]
  simp [and_assoc]

/-- Only what is declared depends on anything. -/
theorem exists_mem_entries_of_mem_targets_collect {role : Role}
    (h : y ∈ (collect ds).targets ds role x) : ∃ d ∈ ds.entries, d.name = x := by
  by_contra hno
  have hnone : (collect ds).uses.lookup x = none := by
    rw [collect, List.lookup_eq_none_iff]
    intro p hp
    obtain ⟨d, hd, rfl⟩ := List.mem_map.mp hp
    exact bne_iff_ne.mpr (fun hx => hno ⟨d, hd, hx.symm⟩)
  rw [targets, names, hnone] at h
  simp at h

end Stagewise.Dependencies
