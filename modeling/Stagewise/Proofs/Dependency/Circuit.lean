import Mathlib.Data.ZMod.Defs
import Mathlib.Logic.Relation
import Stagewise.Proofs.Dependency.StageGraph

/-!
# Circuits

A circle of declarations that use each other has a **shape**: which of them are
functions, and in which role each uses the next. The shape decides whether the
schedule can notice the circle. Of a circle with a use as a type it notices all,
and of any other it misses the steps that lead from a function to a function. So
the schedule refuses a circle of any shape but one: all uses are as values, and
in one place at least a function uses a function. Such a circuit is `Hidden`, be
there constants on it or not.
-/

namespace Stagewise

open Relation Fin.NatCast Fin.CommRing

/-!
## Places

The places of a circuit are numbered, and the number after the last is the first
again. Going back is subtraction there, so that a turn is as many steps as there
are places, from wherever it begins.
-/

namespace Circuit

variable {n : Nat}

/-- **The next place** on a circuit of `n + 1` places. The first follows the
last. -/
def next (i : Fin (n + 1)) : Fin (n + 1) := i + 1

/-- The place that is `k` steps back. -/
def back (i : Fin (n + 1)) (k : Nat) : Fin (n + 1) := i - k

/-- No steps back. -/
@[simp]
theorem back_zero (i : Fin (n + 1)) : back i 0 = i := by
  rw [back, Nat.cast_zero, sub_zero]

/-- A step back and the next place undo each other. -/
@[simp]
theorem next_back_succ (i : Fin (n + 1)) (k : Nat) : next (back i (k + 1)) = back i k := by
  rw [next, back, back, Nat.cast_succ, sub_add_eq_sub_sub, sub_add_cancel]

/-- The first of several steps back can be taken apart. -/
theorem back_succ (i : Fin (n + 1)) (k : Nat) : back i (k + 1) = back (back i 1) k := by
  rw [back, back, back, Nat.cast_succ, Nat.cast_one, sub_add_eq_sub_sub_swap]

/-- A whole turn leads back to where it began. -/
theorem back_turn (i : Fin (n + 1)) : back i (n + 1) = i := by
  rw [back, Fin.natCast_self, sub_zero]

/-- The next place is almost a whole turn back. -/
theorem next_eq_back (i : Fin (n + 1)) : next i = back i n := by
  have h := next_back_succ i n
  rwa [back_turn] at h

/-- Within a turn no place is met twice. -/
theorem back_inj {i : Fin (n + 1)} {k l : Nat} (hk : k ≤ n) (hl : l ≤ n)
    (h : back i k = back i l) : k = l := by
  have hval := congrArg Fin.val (sub_right_injective h)
  rwa [Fin.val_natCast, Fin.val_natCast, Nat.mod_eq_of_lt (Nat.lt_succ_of_le hk),
    Nat.mod_eq_of_lt (Nat.lt_succ_of_le hl)] at hval

/-- In a turn every place is met. -/
theorem exists_back_eq (i j : Fin (n + 1)) : ∃ k ≤ n, back i k = j :=
  ⟨(i - j).val, Nat.le_of_lt_succ (i - j).isLt, by
    rw [back, Fin.cast_val_eq_self, sub_sub_cancel]⟩

/-- The way ahead to a place gets shorter with every step that does not begin
there. -/
theorem sub_next_lt {i j : Fin (n + 1)} (h : j ≠ i) : (i - next j).val < (i - j).val := by
  have hne : i - j ≠ 0 := fun h0 => h (sub_eq_zero.mp h0).symm
  rw [next, sub_add_eq_sub_sub, Fin.val_sub_one_of_ne_zero hne]
  exact Nat.sub_lt (Nat.pos_of_ne_zero (fun h0 => hne (Fin.ext h0))) Nat.one_pos

/-- On a circuit there is a way from everywhere to everywhere. -/
theorem reflTransGen_around {α : Type} {r : α → α → Prop} {f : Fin (n + 1) → α}
    (h : ∀ i, r (f i) (f (next i))) (i j : Fin (n + 1)) : ReflTransGen r (f i) (f j) := by
  obtain ⟨k, -, rfl⟩ := exists_back_eq j i
  induction k with
  | zero => rw [back_zero]
  | succ k ih =>
    refine ReflTransGen.head (h _) ?_
    rwa [next_back_succ]

/-- A path as a sequence. -/
theorem exists_sequence {α : Type} {r : α → α → Prop} {a b : α} (h : TransGen r a b) :
    ∃ (n : Nat) (f : Nat → α), f 0 = a ∧ f (n + 1) = b ∧ ∀ k ≤ n, r (f k) (f (k + 1)) := by
  induction h with
  | @single b hs => exact ⟨0, fun k => if k = 0 then a else b, by simp, by simp, by simpa using hs⟩
  | @tail b c _ hs ih =>
    obtain ⟨n, f, h0, hn, hf⟩ := ih
    refine ⟨n + 1, fun k => if k ≤ n + 1 then f k else c, by simp [h0], by simp, fun k hk => ?_⟩
    obtain hlt | rfl := Nat.lt_or_eq_of_le hk
    · have hk := Nat.le_of_lt_succ hlt
      simpa [hk, Nat.le_succ_of_le hk] using hf k hk
    · have hover : ¬n + 1 + 1 ≤ n + 1 := Nat.not_succ_le_self (n + 1)
      simpa only [le_refl, if_true, if_neg hover, hn] using hs

/-- **A path that leads back to where it began is a circuit.** -/
theorem exists_circuit {α : Type} {r : α → α → Prop} {a : α} (h : TransGen r a a) :
    ∃ (n : Nat) (f : Fin (n + 1) → α), f 0 = a ∧ ∀ i, r (f i) (f (next i)) := by
  obtain ⟨n, f, h0, hn, hf⟩ := exists_sequence h
  refine ⟨n, fun i => f i, h0, fun i => ?_⟩
  by_cases hi : i = Fin.last n
  · -- the last step of the path leads to its first place
    have hlast := hf n (le_refl n)
    rw [hn, ← h0] at hlast
    rwa [next, hi, Fin.last_add_one]
  · have hval := hf i (Nat.le_of_lt_succ i.isLt)
    rwa [← Fin.val_add_one_of_lt (Fin.lt_last_iff_ne_last.mpr hi)] at hval

end Circuit

/-!
## Circuits of declarations

A circle of dependencies has no beginning, and a declaration may stand on it
several times. As a sequence of places it has both, the names and how each is
used, and the properties of its shape are properties of finitely many steps.
-/

/-- **A step of a circuit**: what kind of declaration takes it, and how it uses
the next. -/
structure Turn where
  /-- Whether the declaration is a function. -/
  isFunction : Bool
  /-- How it uses the next. -/
  role : Role
  deriving DecidableEq, Repr

namespace Dependencies

open Circuit (next reflTransGen_around exists_circuit)

variable {deps : Dependencies} {ds : Declarations} {n : Nat} {shape : Fin (n + 1) → Turn}
  {names : Fin (n + 1) → String}

/-- **A circuit** of a shape: each declaration uses the next, and the last the
first. -/
def IsCircuit (deps : Dependencies) (ds : Declarations) (shape : Fin (n + 1) → Turn)
    (names : Fin (n + 1) → String) : Prop :=
  ∀ i, ds.isFunction (names i) = (shape i).isFunction ∧
    names (next i) ∈ deps.targets ds (shape i).role (names i)

/-- **A hidden circuit**: all uses are as values, and a function uses a
function. -/
def Hidden (shape : Fin (n + 1) → Turn) : Prop :=
  (∀ i, (shape i).role = .value) ∧
    ∃ i, (shape i).isFunction = true ∧ (shape (next i)).isFunction = true

/-- A step of a circuit is a dependency, whatever its role. -/
theorem IsCircuit.dependsOn (h : deps.IsCircuit ds shape names) (i : Fin (n + 1)) :
    deps.DependsOn ds (names i) (names (next i)) := ⟨_, (h i).2⟩

/-- What lies on a circuit depends on itself. -/
theorem IsCircuit.transGen (h : deps.IsCircuit ds shape names) (i : Fin (n + 1)) :
    TransGen (deps.DependsOn ds) (names i) (names i) :=
  TransGen.head' (h.dependsOn i) (reflTransGen_around h.dependsOn _ _)

/-- **What depends on itself lies on a circuit.** -/
theorem exists_isCircuit {x : String} (h : TransGen (deps.DependsOn ds) x x) :
    ∃ (n : Nat) (shape : Fin (n + 1) → Turn) (names : Fin (n + 1) → String),
      deps.IsCircuit ds shape names ∧ names 0 = x := by
  obtain ⟨n, names, h0, hnext⟩ := exists_circuit h
  choose role hrole using hnext
  exact ⟨n, fun i => ⟨ds.isFunction (names i), role i⟩, names, fun i => ⟨rfl, hrole i⟩, h0⟩

/-- **A circuit that is not hidden is refused.**

Every step of the circuit leaves an edge in the stage graph, for one of two
reasons. If all uses are as values then no function on the circuit uses a
function, and only such a use could go without an edge. If one use is as a type
then it lies on the way around from any step back to it, and this is the
condition under which even a function requires a function. A circuit of edges is
a cycle of the graph. -/
theorem schedule_eq_error_of_isCircuit (h : deps.IsCircuit ds shape names)
    (hshape : ¬Hidden shape) : ∃ cycle, (deps.stageGraph ds).schedule = .error cycle := by
  have hedge : ∀ i, deps.Precedes ds (names i) (names (next i)) := by
    intro i
    by_cases hvalue : ∀ j, (shape j).role = .value
    · -- no function uses a function, so every use leaves a requirement
      refine ⟨.requires, hvalue i ▸ (h i).2, fun hx hy => ?_⟩
      rw [(h i).1] at hx
      rw [(h (next i)).1] at hy
      exact absurd ⟨hvalue, i, hx, hy⟩ hshape
    · -- somewhere there is a use as a type, and it lies on the way on and on the way back
      push Not at hvalue
      obtain ⟨j, hj⟩ := hvalue
      have htype : names (next j) ∈ deps.targets ds .type (names j) := by
        cases hrole : (shape j).role with
        | type => exact hrole ▸ (h j).2
        | value => exact absurd hrole hj
      exact precedes_of_circle htype (reflTransGen_around h.dependsOn _ _) (h.dependsOn i)
        (reflTransGen_around h.dependsOn _ _)
  exact schedule_eq_error_of_transGen (TransGen.head' (hedge 0) (reflTransGen_around hedge _ _))

/-- **What is used as a type does not depend on its user**, if there is a
schedule.

Otherwise the two would be on a circuit with a use as a type. -/
theorem not_reaches_of_mem_targets {s : Stage.Schedule} (hs : (deps.stageGraph ds).schedule = .ok s)
    {a b : String} (hab : b ∈ deps.targets ds .type a) :
    ¬ReflTransGen (deps.DependsOn ds) b a := by
  intro hba
  obtain ⟨n, names, rfl, hnext⟩ := exists_circuit (TransGen.head' ⟨.type, hab⟩ hba)
  have hedge (i : Fin (n + 1)) : deps.Precedes ds (names i) (names (next i)) :=
    precedes_of_circle hab (hba.trans (reflTransGen_around hnext 0 i)) (hnext i)
      (reflTransGen_around hnext _ 0)
  obtain ⟨cycle, hcycle⟩ :=
    schedule_eq_error_of_transGen (TransGen.head' (hedge 0) (reflTransGen_around hedge _ _))
  cases hs.symm.trans hcycle

end Dependencies

end Stagewise
