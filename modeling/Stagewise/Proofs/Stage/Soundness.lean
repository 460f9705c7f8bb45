import Stagewise.Proofs.Reach
import Stagewise.Proofs.Stage.Rounds

/-!
# Schedules respect their graphs

What a schedule owes its graph can be said without the rounds that find it: all
nodes are in it, each once, in stages none of which is empty, and every
dependency is met, those under **after** by the stages and those under
**requires** by the order. `Schedule.Respects` says so, and
`Graph.respects_of_schedule_eq_ok` says that a schedule that was found is one of
these.

The two constraints are met for different reasons. A round queues a node once
the nodes it comes after are placed, so these are in earlier stages. What a node
requires need only be queued with it, and it is the order within the stage that
puts it first. In either case a dependency is earlier in the order, and so a
graph that has a schedule has no cycle, whichever dependencies the cycle is made
of.
-/

namespace Stagewise.Stage

open Relation

/-!
## What a schedule owes

Stages are numbered, and the order of a schedule is its stages one after the
other. The two say the same of nodes in different stages, and within a stage
only the order tells which is first.
-/

namespace Schedule

/-- The number of the stage that a node is in. -/
def stageOf (s : Schedule) (n : Nat) : Nat := s.stages.findIdx (n ∈ ·)

/-- The position of a node in the order. -/
def position (s : Schedule) (n : Nat) : Nat := s.order.idxOf n

/-- **The schedule respects the graph.** -/
structure Respects (s : Schedule) (g : Graph) : Prop where
  /-- The nodes are those of the graph, each once. -/
  once : s.order.Perm g.indices
  /-- There is something in every stage. -/
  nonempty : ∀ stage ∈ s.stages, stage ≠ []
  /-- What a node comes after is in an earlier stage. -/
  after : ∀ n d, d ∈ g.dependencies .after n → s.stageOf d < s.stageOf n
  /-- What a node requires is earlier in the order. -/
  requires : ∀ n d, d ∈ g.dependencies .requires n → s.position d < s.position n

instance (s : Schedule) (g : Graph) : Decidable (s.Respects g) :=
  decidable_of_iff
    (s.order.Perm g.indices ∧ (∀ stage ∈ s.stages, stage ≠ []) ∧
      (∀ n ∈ g.indices, ∀ d ∈ g.dependencies .after n, s.stageOf d < s.stageOf n) ∧
      ∀ n ∈ g.indices, ∀ d ∈ g.dependencies .requires n, s.position d < s.position n)
    ⟨fun ⟨once, nonempty, after, requires⟩ =>
      { once, nonempty
        after := fun n d hd => after n (Graph.mem_indices_of_mem_dependencies hd) d hd
        requires := fun n d hd => requires n (Graph.mem_indices_of_mem_dependencies hd) d hd },
      fun h => ⟨h.once, h.nonempty, fun n _ => h.after n, fun n _ => h.requires n⟩⟩

/-- The stages follow each other in the order. -/
theorem position_lt_of_stageOf_lt {s : Schedule} {d n : Nat} (h : s.stageOf d < s.stageOf n) :
    s.position d < s.position n := by
  obtain ⟨stages⟩ := s
  unfold stageOf at h
  unfold position order
  dsimp only at h ⊢
  induction stages with
  | nil => exact absurd h (lt_irrefl _)
  | cons stage stages ih =>
    rw [List.findIdx_cons, List.findIdx_cons] at h
    rw [List.flatten_cons, List.idxOf_append, List.idxOf_append]
    by_cases hd : d ∈ stage
    · have hn : n ∉ stage := fun hn => by simp [hd, hn] at h
      rw [if_pos hd, if_neg hn]
      exact Nat.lt_add_left _ (List.idxOf_lt_length_of_mem hd)
    · have hn : n ∉ stage := fun hn => by simp [hd, hn] at h
      simp only [hd, hn, decide_false, cond_false, Nat.add_lt_add_iff_right] at h
      rw [if_neg hd, if_neg hn]
      exact Nat.add_lt_add_right (ih h) _

/-- What is earlier in the order is in no later stage. -/
theorem stageOf_le_of_position_lt {s : Schedule} {d n : Nat} (h : s.position d < s.position n) :
    s.stageOf d ≤ s.stageOf n :=
  Nat.le_of_not_lt (fun hlt => lt_asymm h (position_lt_of_stageOf_lt hlt))

end Schedule

/-! ## What a run of rounds owes -/

namespace Graph

variable {g : Graph}

/-- What is out of sight of a list in order is found in the list before it is
required. -/
theorem InOrder.idxOf_lt {visible l : List Nat} (h : g.InOrder visible l) {n d : Nat} (hn : n ∈ l)
    (hd : d ∈ g.dependencies .requires n) (hv : d ∉ visible) : l.idxOf d < l.idxOf n := by
  induction l generalizing visible with
  | nil => exact absurd hn List.not_mem_nil
  | cons m l ih =>
    have hnm : n ≠ m := fun hnm => hv (h.1 d (hnm ▸ hd))
    have hn := (List.mem_cons.mp hn).resolve_left hnm
    rw [List.idxOf_cons_ne _ hnm.symm]
    by_cases hdm : d = m
    · rw [hdm, List.idxOf_cons_self]
      exact Nat.succ_pos _
    · rw [List.idxOf_cons_ne _ (Ne.symm hdm)]
      exact Nat.succ_lt_succ (ih h.2 hn (fun hmem => (List.mem_cons.mp hmem).elim hdm hv))

namespace Runs

variable {placed pending : List Nat} {stages : List (List Nat)}

/-- A stage has the nodes of its queue. -/
theorem mem_stage {stage : List Nat}
    (h : g.arrange placed (g.queued placed pending) = .ok stage) {n : Nat} :
    n ∈ stage ↔ n ∈ g.queued placed pending := (arrange_ok h).1.mem_iff

/-- All pending nodes are put into stages. -/
theorem perm (h : g.Runs placed pending stages) : stages.flatten.Perm pending := by
  induction h with
  | done => exact .refl _
  | @round placed pending stage stages _ _ hstage _ ih =>
    rw [List.flatten_cons]
    exact ((arrange_ok hstage).1.append ih).trans (queued_append_waiting_perm placed pending)

theorem nonempty (h : g.Runs placed pending stages) : ∀ stage ∈ stages, stage ≠ [] := by
  induction h with
  | done => exact fun stage hs => absurd hs List.not_mem_nil
  | @round placed pending stage stages hqueued _ hstage _ ih =>
    intro t ht
    obtain rfl | ht := List.mem_cons.mp ht
    · exact fun hnil => hqueued (List.Perm.eq_nil (hnil ▸ (arrange_ok hstage).1.symm))
    · exact ih t ht

/-- The stages one after the other are in order. -/
theorem inOrder (h : g.Runs placed pending stages) : g.InOrder placed stages.flatten := by
  induction h with
  | done => trivial
  | round _ _ hstage _ ih =>
    rw [List.flatten_cons]
    exact (arrange_ok hstage).2.append ih

/-- What a pending node comes after is placed, or it is put into an earlier
stage. -/
theorem findIdx_lt (h : g.Runs placed pending stages) {n d : Nat} (hn : n ∈ pending)
    (hd : d ∈ g.dependencies .after n) (hp : d ∉ placed) :
    stages.findIdx (d ∈ ·) < stages.findIdx (n ∈ ·) := by
  induction h with
  | done => exact absurd hn List.not_mem_nil
  | @round placed pending stage stages _ _ hstage _ ih =>
    -- `n` is not queued before `d` is placed
    have hns : n ∉ stage := fun hs => hp ((mem_queued.mp ((mem_stage hstage).mp hs)).2 d hd)
    rw [List.findIdx_cons, List.findIdx_cons]
    simp only [hns, decide_false, cond_false]
    by_cases hds : d ∈ stage
    · simp [hds]
    · simp only [hds, decide_false, cond_false, Nat.add_lt_add_iff_right]
      refine ih (mem_waiting.mpr ⟨hn, d, hd, hp⟩) (fun hmem => ?_)
      exact (List.mem_append.mp hmem).elim hp hds

end Runs

/-- A run over all nodes respects the graph.

By induction on the run. All that a round places is in order after what was
placed before. A node that comes after something is not queued before that is
placed, so it is in a later stage. -/
theorem Runs.respects {s : Schedule} (h : g.Runs [] g.indices s.stages) : s.Respects g where
  once := h.perm
  nonempty := h.nonempty
  after _ _ hd := h.findIdx_lt (mem_indices_of_mem_dependencies hd) hd List.not_mem_nil
  requires n _ hd := by
    have hn : n ∈ s.stages.flatten := h.perm.mem_iff.mpr (mem_indices_of_mem_dependencies hd)
    exact h.inOrder.idxOf_lt hn hd List.not_mem_nil

/-- **A schedule that was found respects the graph**, and what a node requires
is in the same or an earlier stage.

A schedule that is found comes from a run over all nodes, and such a run
respects the graph. What is earlier in the order is not in a later stage. -/
theorem respects_of_schedule_eq_ok (g : Graph) (s : Schedule) (h : g.schedule = .ok s) :
    s.Respects g ∧ ∀ n d, d ∈ g.dependencies .requires n → s.stageOf d ≤ s.stageOf n := by
  have hs : s.Respects g := (runs_of_schedule_eq_ok h).respects
  exact ⟨hs, fun n d hd => Schedule.stageOf_le_of_position_lt (hs.requires n d hd)⟩

/-- Three nodes, the first of which requires the third, twice, which the second
comes after. -/
def crossed : Graph :=
  ((Graph.empty.addNode { label := "a" }).addNode { label := "b" }).addNode { label := "c" }
    |>.connect .requires 0 2 |>.connect .requires 0 2 |>.connect .after 1 2

theorem crossed_respected :
    crossed.schedule = .ok ⟨[[2, 0], [1]]⟩ ∧ (Schedule.mk [[2, 0], [1]]).Respects crossed ∧
      ∀ n d, d ∈ crossed.dependencies .requires n →
        (Schedule.mk [[2, 0], [1]]).stageOf d ≤ (Schedule.mk [[2, 0], [1]]).stageOf n := by
  have h : crossed.schedule = .ok ⟨[[2, 0], [1]]⟩ := by decide +kernel
  exact ⟨h, respects_of_schedule_eq_ok crossed _ h⟩

/-!
## Cycles

The position in the order drops along every dependency, so there is no way
around.
-/

/-- A node depends on another, under either constraint. -/
def DependsOn (g : Graph) (n d : Nat) : Prop := ∃ c, d ∈ g.dependencies c n

/-- **The graph has a cycle**, of dependencies under either constraint. -/
def Cyclic (g : Graph) : Prop := ∃ n, TransGen g.DependsOn n n

/-- **A graph with a cycle has no schedule.** -/
theorem not_cyclic_of_respects {s : Schedule} (h : s.Respects g) : ¬g.Cyclic := by
  rintro ⟨n, hn⟩
  refine not_transGen_self_of_lt s.position (fun m d ⟨c, hd⟩ => ?_) n hn
  cases c with
  | after => exact Schedule.position_lt_of_stageOf_lt (h.after m d hd)
  | requires => exact h.requires m d hd

end Graph

end Stagewise.Stage
