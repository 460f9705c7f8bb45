import Mathlib.Data.List.Nodup
import Stagewise.Declaration.Collect

/-!
# Looking up declarations

Names are distinct, so a name, a declaration and a position are three ways to
say the same, and the functions that go from one to another are inverse to each
other.
-/

namespace Stagewise.Declarations

variable {ds : Declarations} {x y : String} {i : Nat} {d : Declaration}

/-- What is collected of a module is the built-ins and the module. -/
theorem entries_eq_of_collect_eq_ok {m : Source.Module} (h : collect m = .ok ds) :
    ds.entries = entriesOf m := by
  unfold collect at h
  split at h
  · exact Except.ok.inj h ▸ rfl
  · cases h

/-- The name at a position is that of the declaration. -/
theorem getElem?_names (h : ds.entries[i]? = some d) : ds.names[i]? = some d.name := by
  rw [names, List.getElem?_map, h, Option.map_some]

/-- The position of a name is where the name is. -/
theorem index?_eq_some_iff : ds.index? x = some i ↔ ds.names[i]? = some x := by
  rw [index?, ds.positioned, List.findIdx?_eq_some_iff_getElem, names, List.getElem?_eq_some_iff]
  simp only [List.getElem_map, List.length_map, decide_eq_true_eq]
  constructor
  · rintro ⟨hi, hx, -⟩
    exact ⟨hi, hx⟩
  · rintro ⟨hi, hx⟩
    refine ⟨hi, hx, fun j hj hjx => ?_⟩
    -- an earlier position of the same name would be the same position
    have hsame : (ds.entries.map Declaration.name)[j]? = (ds.entries.map Declaration.name)[i]? := by
      rw [List.getElem?_map, List.getElem?_map, List.getElem?_eq_getElem (Nat.lt_trans hj hi),
        List.getElem?_eq_getElem hi, Option.map_some, Option.map_some, hx, hjx]
    have hlt : j < (ds.entries.map Declaration.name).length := by
      rw [List.length_map]
      exact Nat.lt_trans hj hi
    exact Nat.ne_of_lt hj ((List.getElem?_inj hlt ds.distinct).mp hsame)

/-- The index finds what a search through the declarations finds. -/
theorem find?_eq : ds.find? x = ds.entries.find? (·.name = x) := by
  rw [find?, index?, ds.positioned, List.find?_eq_bind_findIdx?_getElem?]
  rfl

/-- The declaration that is found under a name. -/
theorem find?_eq_some_iff : ds.find? x = some d ↔ d ∈ ds.entries ∧ d.name = x := by
  rw [find?, Option.bind_eq_bind, Option.bind_eq_some_iff]
  constructor
  · rintro ⟨i, hi, hd⟩
    refine ⟨List.mem_of_getElem? hd, ?_⟩
    exact Option.some.inj ((getElem?_names hd).symm.trans (index?_eq_some_iff.mp hi))
  · rintro ⟨hd, rfl⟩
    obtain ⟨i, hi⟩ := List.mem_iff_getElem?.mp hd
    exact ⟨i, index?_eq_some_iff.mpr (getElem?_names hi), hi⟩

/-- Every declared name has a position. -/
theorem exists_index?_of_mem_names (h : x ∈ ds.names) : ∃ i, ds.index? x = some i := by
  obtain ⟨i, hi⟩ := List.mem_iff_getElem?.mp h
  exact ⟨i, index?_eq_some_iff.mpr hi⟩

/-- To declare a name is to have it among the names. -/
theorem declares_iff : ds.declares x = true ↔ x ∈ ds.names := by
  rw [declares, Option.isSome_iff_exists, List.mem_iff_getElem?]
  exact exists_congr fun _ => index?_eq_some_iff

/-- Positions are those of declarations. -/
theorem index?_lt_count (h : ds.index? x = some i) : i < ds.count := by
  have hi := (List.getElem?_eq_some_iff.mp (index?_eq_some_iff.mp h)).1
  rwa [names, List.length_map] at hi

/-- A position has one name. -/
theorem eq_of_index?_eq (hx : ds.index? x = some i) (hy : ds.index? y = some i) : x = y := by
  rw [index?_eq_some_iff] at hx hy
  exact Option.some.inj (hx.symm.trans hy)

/-- Whether a name is that of a function of the module. -/
def isFunction (ds : Declarations) (x : String) : Bool :=
  (ds.find? x).any Declaration.isFunction

/-- A declaration is found under its own name. -/
theorem isFunction_name (hd : d ∈ ds.entries) : ds.isFunction d.name = d.isFunction := by
  rw [isFunction, find?_eq_some_iff.mpr ⟨hd, rfl⟩, Option.any_some]

end Stagewise.Declarations
