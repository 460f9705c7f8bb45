import Mathlib.Algebra.BigOperators.Group.List.Basic
import Mathlib.Algebra.GroupWithZero.Nat
import Stagewise.Proofs.Dependency.Paths

/-!
# The search for what is evaluated before

What has to be evaluated before a declaration is found by a search that goes
through pairs of a declaration and whether a use as a type lies behind. The
search is a loop over the pairs still to visit. It meets every pair once,
however the declarations depend on each other, and so it visits no more than all
their dependencies together, with some to begin with (`Searches.exists_le`).

What it finds are the ends of walks (`Dependencies.Walk`). A walk goes from
declaration to declaration, each the one that a name refers to which the last
one uses, and a walk is typed if one of these uses is as a type.
`Dependencies.evaluatedBefore_eq_walks` says both: the loop ends in time, and
what it returns is the ends of typed walks, each once.
-/

namespace Stagewise

/-!
## Searches

How long a search takes is not something that the value of the search says. So
the loop is followed once more, as a relation that counts the visits. There is
one rule for each way in which the loop goes on, and the relation holds for what
the function returns.
-/

section

variable {α : Type} [DecidableEq α]

/-- **A search that ends** after some number of visits, and what it has met by
then. -/
inductive Searches (next : α → List α) : Nat → List α → List α → List α → Prop where
  | done (fresh : List α) : Searches next 0 fresh [] []
  /-- What was met before is passed over. -/
  | pass {k : Nat} {a : α} {fresh work found : List α} (met : a ∉ fresh)
    (rest : Searches next k fresh work found) : Searches next (k + 1) fresh (a :: work) found
  /-- What is new is met, and its successors are to be visited. -/
  | meet {k : Nat} {a : α} {fresh work found : List α} (new : a ∈ fresh)
    (rest : Searches next k (fresh.erase a) (next a ++ work) found) :
    Searches next (k + 1) fresh (a :: work) (a :: found)

variable {next : α → List α} {fresh work : List α}

/-- **A search ends** when all successors of all nodes were visited, at the
latest.

Every visit takes a node from the work list. What comes onto the list are the
successors of a node when it is met, and it is met once. So the nodes that are
ever on the list are those of the beginning, and the successors of all fresh
nodes together. -/
theorem Searches.exists_le (next : α → List α) (fresh work : List α) :
    ∃ k ≤ work.length + (fresh.map fun a => (next a).length).sum,
      Searches next k fresh work (reach next fresh work) := by
  fun_induction reach next fresh work with
  | case1 fresh => exact ⟨0, Nat.zero_le _, .done fresh⟩
  | case2 fresh a work ha ih =>
    obtain ⟨k, hk, hrest⟩ := ih
    refine ⟨k + 1, ?_, .meet ha hrest⟩
    -- the successors of `a` are to be visited now, and are counted once
    have hsum := ((List.perm_cons_erase ha).map fun a => (next a).length).sum_eq
    rw [List.map_cons, List.sum_cons] at hsum
    rw [List.length_append] at hk
    rw [hsum, List.length_cons]
    omega
  | case3 fresh a work ha ih =>
    obtain ⟨k, hk, hrest⟩ := ih
    refine ⟨k + 1, ?_, .pass ha hrest⟩
    rw [List.length_cons]
    omega

/-- **A search meets nothing twice.**

A node that is met is taken from the fresh ones, and only fresh ones are met. -/
theorem nodup_reach (h : fresh.Nodup) (work : List α) : (reach next fresh work).Nodup := by
  fun_induction reach next fresh work with
  | case1 => exact .nil
  | case2 fresh a work ha ih =>
    refine List.nodup_cons.mpr ⟨fun hmet => ?_, ih (h.erase a)⟩
    -- what is met later is fresh then, and `a` is not
    obtain ⟨w, -, hw, hpath⟩ := mem_reach_iff.mp hmet
    have hfresh : a ∈ fresh.erase a := by
      obtain rfl | ⟨b, -, hb⟩ := hpath.cases_tail
      · exact hw
      · exact hb.2
    exact (h.mem_erase_iff.mp hfresh).1 rfl
  | case3 fresh a work ha ih => exact ih h

end

/-!
## Walks

A dependency is a name that is used and looked up, and the walks are sequences
of these. They say what `DependsThroughType` says with paths, but in terms of
single steps, with their number.
-/

namespace Dependencies

open Relation

variable {deps : Dependencies} {ds : Declarations} {x y z : String}

/-- **A declaration is looked up** by a name that another one uses in a role. -/
def LooksUp (deps : Dependencies) (ds : Declarations) (role : Role) (x y : String) : Prop :=
  ∃ name ∈ deps.names role x, ∃ d, ds.find? name.text = some d ∧ d.name = y

/-- **A walk** of some length from one declaration to another, along uses in
either role. -/
structure Walk (deps : Dependencies) (ds : Declarations) (x z : String) (length : Nat) where
  /-- Where it is after some steps. -/
  place : Nat → String
  start : place 0 = x
  stop : place length = z
  step : ∀ i < length, ∃ role, deps.LooksUp ds role (place i) (place (i + 1))

/-- One of the uses is as a type. -/
def Walk.Typed {length : Nat} (w : deps.Walk ds x z length) : Prop :=
  ∃ i < length, deps.LooksUp ds .type (w.place i) (w.place (i + 1))

/-- The names that are looked up with success are the targets. -/
theorem looksUp_iff {role : Role} : deps.LooksUp ds role x y ↔ y ∈ deps.targets ds role x := by
  rw [targets, List.mem_filter, List.mem_map]
  constructor
  · rintro ⟨name, hname, d, hfind, rfl⟩
    obtain ⟨hd, hdname⟩ := Declarations.find?_eq_some_iff.mp hfind
    exact ⟨⟨name, hname, hdname.symm⟩, Declarations.declares_iff.mpr (List.mem_map_of_mem hd)⟩
  · rintro ⟨⟨name, hname, rfl⟩, hdeclared⟩
    obtain ⟨d, hd, hdname⟩ := List.mem_map.mp (Declarations.declares_iff.mp hdeclared)
    exact ⟨name, hname, d, Declarations.find?_eq_some_iff.mpr ⟨hd, hdname⟩, hdname⟩

/-- A dependency is a lookup in some role. -/
theorem dependsOn_iff : deps.DependsOn ds x y ↔ ∃ role, deps.LooksUp ds role x y :=
  exists_congr fun _ => looksUp_iff.symm

namespace Walk

variable {k : Nat}

/-- The walk that goes nowhere. -/
def nil (deps : Dependencies) (ds : Declarations) (x : String) : deps.Walk ds x x 0 where
  place _ := x
  start := rfl
  stop := rfl
  step _ hi := absurd hi (Nat.not_lt_zero _)

/-- A walk goes one step further. -/
def snoc (w : deps.Walk ds x y k) {role : Role} (h : deps.LooksUp ds role y z) :
    deps.Walk ds x z (k + 1) where
  place i := if i ≤ k then w.place i else z
  start := (if_pos (Nat.zero_le k)).trans w.start
  stop := if_neg (Nat.not_succ_le_self k)
  step i hi := by
    rw [if_pos (Nat.le_of_lt_succ hi)]
    obtain hi | rfl := Nat.lt_succ_iff_lt_or_eq.mp hi
    · rw [if_pos (Nat.succ_le_of_lt hi)]
      exact w.step i hi
    · rw [if_neg (Nat.not_succ_le_self i), w.stop]
      exact ⟨role, h⟩

/-- The places of a walk stay where they are when it goes further. -/
theorem place_snoc (w : deps.Walk ds x y k) {role : Role} (h : deps.LooksUp ds role y z) {i : Nat}
    (hi : i ≤ k) : (w.snoc h).place i = w.place i := if_pos hi

/-- A walk that is typed stays so when it goes further. -/
theorem Typed.snoc {w : deps.Walk ds x y k} (hw : w.Typed) {role : Role}
    (h : deps.LooksUp ds role y z) : (w.snoc h).Typed := by
  obtain ⟨i, hi, huse⟩ := hw
  refine ⟨i, Nat.lt_succ_of_lt hi, ?_⟩
  rwa [place_snoc w h hi.le, place_snoc w h (Nat.succ_le_of_lt hi)]

/-- A walk becomes typed by a use as a type. -/
theorem typed_snoc (w : deps.Walk ds x y k) (h : deps.LooksUp ds .type y z) : (w.snoc h).Typed := by
  refine ⟨k, Nat.lt_succ_self k, ?_⟩
  rwa [place_snoc w h le_rfl, w.stop, (w.snoc h).stop]

/-- What lies further on a walk is depended on. -/
theorem reflTransGen (w : deps.Walk ds x z k) {i j : Nat} (hij : i ≤ j) (hj : j ≤ k) :
    ReflTransGen (deps.DependsOn ds) (w.place i) (w.place j) := by
  induction hij with
  | refl => exact .refl
  | @step j _ ih => exact (ih (Nat.le_of_succ_le hj)).tail (dependsOn_iff.mpr (w.step j hj))

end Walk

/-- A path is a walk of some length. -/
theorem exists_walk (h : ReflTransGen (deps.DependsOn ds) x y) :
    ∃ k, Nonempty (deps.Walk ds x y k) := by
  induction h with
  | refl => exact ⟨0, ⟨.nil deps ds x⟩⟩
  | tail _ hstep ih =>
    obtain ⟨k, ⟨w⟩⟩ := ih
    obtain ⟨role, hrole⟩ := dependsOn_iff.mp hstep
    exact ⟨k + 1, ⟨w.snoc hrole⟩⟩

/-- **Dependence through a type is a typed walk.**

The use as a type that a path must have on it is one of the steps of the walk.
What comes before it and what comes after it are paths, of which nothing is
known but that they are there. -/
theorem dependsThroughType_iff :
    deps.DependsThroughType ds x z ↔ ∃ k, ∃ w : deps.Walk ds x z k, w.Typed := by
  constructor
  · rintro ⟨a, b, hxa, hab, hbz⟩
    induction hbz with
    | refl =>
      obtain ⟨k, ⟨w⟩⟩ := exists_walk hxa
      exact ⟨k + 1, _, w.typed_snoc (looksUp_iff.mpr hab)⟩
    | tail _ hstep ih =>
      obtain ⟨k, w, hw⟩ := ih
      obtain ⟨role, hrole⟩ := dependsOn_iff.mp hstep
      exact ⟨k + 1, _, hw.snoc hrole⟩
  · rintro ⟨k, w, i, hi, huse⟩
    have hbefore := w.reflTransGen (Nat.zero_le i) hi.le
    have hbehind := w.reflTransGen (Nat.succ_le_of_lt hi) le_rfl
    rw [w.start] at hbefore
    rw [w.stop] at hbehind
    exact ⟨w.place i, w.place (i + 1), hbefore, looksUp_iff.mp huse, hbehind⟩

/-!
## What is found

Pairs and not declarations are what the search goes through. A declaration may
be reached without a use as a type behind it first, and with one later, and then
it has to be gone through once more.
-/

/-- The pairs that the search goes through. -/
def pairs (ds : Declarations) : List (String × Bool) :=
  ds.names.flatMap fun d => [(d, false), (d, true)]

/-- Every pair is listed once. -/
theorem nodup_pairs (ds : Declarations) : (pairs ds).Nodup := by
  refine List.nodup_flatMap.mpr ⟨fun d _ => by simp, ds.distinct.imp fun {x y} hne => ?_⟩
  simp [Function.onFun, List.disjoint_left, hne]

/-- **What is evaluated before a declaration.** The search ends, after no more
visits than the declaration has dependencies, and all declarations twice over.
It returns the ends of the typed walks from the declaration, each once; their
length is at least one, and they may come back to the declaration itself.

The search is a search through the pairs, which are twice as many as the
declarations, and what holds of any search holds of it. What it meets are the
pairs it can reach. Those that remember a use as a type can be reached by the
paths with such a use on them, and these are the typed walks. No declaration is
returned twice, as of the two pairs of a declaration only one remembers a
use. -/
theorem evaluatedBefore_eq_walks (deps : Dependencies) (ds : Declarations) (x : String) :
    (∃ k found, Searches (deps.step ds) k (pairs ds) (deps.step ds (x, false)) found ∧
      k ≤ (deps.step ds (x, false)).length
        + ((pairs ds).map fun p => (deps.step ds p).length).sum ∧
      deps.evaluatedBefore ds x = (found.filter (·.2)).map (·.1)) ∧
    (deps.evaluatedBefore ds x).Nodup ∧
    ∀ z, z ∈ deps.evaluatedBefore ds x ↔
      ∃ k, 1 ≤ k ∧ ∃ w : deps.Walk ds x z k, w.Typed := by
  refine ⟨?_, ?_, fun z => ?_⟩
  · obtain ⟨k, hk, hsearch⟩ :=
      Searches.exists_le (deps.step ds) (pairs ds) (deps.step ds (x, false))
    exact ⟨k, _, hsearch, hk, rfl⟩
  · refine ((nodup_reach (nodup_pairs ds) _).filter _).map_on ?_
    rintro ⟨y, b⟩ hy ⟨z, c⟩ hz rfl
    obtain rfl : b = true := (List.mem_filter.mp hy).2
    obtain rfl : c = true := (List.mem_filter.mp hz).2
    rfl
  · rw [mem_evaluatedBefore, dependsThroughType_iff]
    constructor
    · rintro ⟨k, w, i, hi, huse⟩
      exact ⟨k, Nat.one_le_of_lt hi, w, i, hi, huse⟩
    · rintro ⟨k, -, w, hw⟩
      exact ⟨k, w, hw⟩

end Dependencies

end Stagewise
