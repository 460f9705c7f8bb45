import Mathlib.Data.ENat.Lattice
import Mathlib.Order.CompletePartialOrder
import Stagewise.Proofs.Stage.Soundness

/-!
# Depth, and which graphs are scheduled

A node waits for what it comes after, and for nothing else, before it is queued.
It is therefore placed as early as the constraint **after** allows, in the stage
whose number is its **depth**: the length of the longest chain of nodes below
it, each of which the one above comes after.

This is where scheduling falls short of what is possible. A node that requires a
deeper one is queued too early: it could wait for a later stage, where what it
requires would be at hand, but a node that is queued is placed now or never. So
`Graph.schedule` refuses the graphs that have a cycle, which have no schedule at
all, and beyond them exactly the graphs with a requirement that is deeper than
what requires it. `Graph.schedule_eq_error_iff` is this statement, and
`Graph.leap_refused` is the least of the graphs that are refused without need.
-/

namespace Stagewise.Stage.Graph

open Relation

variable {g : Graph}

/-!
## Depth

Depths are lengths of chains, and chains may go on forever around a cycle. So a
depth is a number or infinite. Whether there is a chain of some length is
decided by looking that far, and the rounds of a schedule look one step further
each time.
-/

/-- There is a chain of `k` nodes below a node. -/
def HasChain (g : Graph) : Nat → Nat → Prop
  | 0, _ => True
  | k + 1, n => ∃ d ∈ g.dependencies .after n, g.HasChain k d

/-- Chains may stop early. -/
theorem HasChain.of_succ {k n : Nat} (h : g.HasChain (k + 1) n) : g.HasChain k n := by
  induction k generalizing n with
  | zero => trivial
  | succ k ih =>
    obtain ⟨d, hd, hchain⟩ := h
    exact ⟨d, hd, ih hchain⟩

/-- A chain has chains of all smaller lengths in it. -/
theorem HasChain.of_le {k l n : Nat} (h : g.HasChain l n) (hkl : k ≤ l) : g.HasChain k n := by
  induction hkl with
  | refl => exact h
  | step _ ih => exact ih h.of_succ

/-- **The depth of a node**: the length of the longest chain below it, which is
infinite if there are chains of any length. -/
noncomputable def depth (g : Graph) (n : Nat) : ℕ∞ := ⨆ k : { k // g.HasChain k n }, (k.1 : ℕ∞)

/-- The depth is reached by chains. -/
theorem le_depth_iff {k n : Nat} : (k : ℕ∞) ≤ g.depth n ↔ g.HasChain k n := by
  constructor
  · intro h
    by_contra hno
    cases k with
    | zero => exact hno trivial
    | succ k =>
      -- all chains are shorter than `k + 1`, and so is the longest
      have hle : g.depth n ≤ k := by
        refine iSup_le (fun l => Nat.cast_le.mpr (Nat.le_of_lt_succ ?_))
        exact Nat.lt_of_not_le (fun hkl => hno (l.2.of_le hkl))
      exact absurd (Nat.cast_le.mp (h.trans hle)) (Nat.not_succ_le_self k)
  · intro h
    exact le_iSup (fun l : { k // g.HasChain k n } => (l.1 : ℕ∞)) ⟨k, h⟩

/-- A node is less deep than that if it has no such chain. -/
theorem depth_lt_iff {k n : Nat} : g.depth n < k ↔ ¬g.HasChain k n := by
  rw [← not_le, le_depth_iff]

/-- A depth is the length of a chain that cannot be longer. -/
theorem depth_eq_iff {k n : Nat} :
    g.depth n = k ↔ g.HasChain k n ∧ ¬g.HasChain (k + 1) n := by
  rw [← le_depth_iff, ← depth_lt_iff, Nat.cast_succ, ENat.lt_add_one_iff (ENat.natCast_ne_top k)]
  exact ⟨fun h => ⟨h.ge, h.le⟩, fun h => le_antisymm h.2 h.1⟩

/-!
## Rounds by depth

What a round queues can be said without the rounds before it: the nodes of the
depth that is the number of the round.
-/

/-- **Before round `k`** the nodes of smaller depth are placed, and the others
pending. -/
structure AtRound (g : Graph) (k : Nat) (placed pending : List Nat) : Prop where
  mem_placed : ∀ n, n ∈ placed ↔ n < g.size ∧ ¬g.HasChain k n
  mem_pending : ∀ n, n ∈ pending ↔ n < g.size ∧ g.HasChain k n

/-- Before the first round nothing is placed, as every node has the empty chain
below it. -/
theorem atRound_zero : g.AtRound 0 [] g.indices where
  mem_placed n := by simp [HasChain]
  mem_pending n := by simp [mem_indices, HasChain]

namespace AtRound

variable {k : Nat} {placed pending : List Nat}

/-- A dependency that is not placed has a chain, and the node above it a longer
one. -/
theorem hasChain_succ_iff (h : g.AtRound k placed pending) {n : Nat} :
    g.HasChain (k + 1) n ↔ ∃ d ∈ g.dependencies .after n, d ∉ placed := by
  refine exists_congr (fun d => and_congr_right (fun hd => ?_))
  rw [h.mem_placed, not_and, not_not]
  exact ⟨fun hc _ => hc, fun hc => hc (lt_size_of_mem_dependencies hd).2⟩

/-- What waits has a chain that is longer. -/
theorem mem_waiting_iff (h : g.AtRound k placed pending) {n : Nat} :
    n ∈ g.waiting placed pending ↔ n < g.size ∧ g.HasChain (k + 1) n := by
  rw [mem_waiting, h.mem_pending, ← h.hasChain_succ_iff]
  exact ⟨fun hn => ⟨hn.1.1, hn.2⟩, fun hn => ⟨⟨hn.1, hn.2.of_succ⟩, hn.2⟩⟩

/-- The round queues the nodes of depth `k`. -/
theorem mem_queued_iff (h : g.AtRound k placed pending) {n : Nat} :
    n ∈ g.queued placed pending ↔ n < g.size ∧ g.depth n = k := by
  have hready : (∀ d ∈ g.dependencies .after n, d ∈ placed) ↔ ¬g.HasChain (k + 1) n := by
    rw [h.hasChain_succ_iff]
    push Not
    exact Iff.rfl
  rw [mem_queued, h.mem_pending, hready, depth_eq_iff, and_assoc]

/-- Nodes are placed or pending. -/
theorem mem_placed_or_pending (h : g.AtRound k placed pending) {n : Nat} (hn : n < g.size) :
    n ∈ placed ∨ n ∈ pending := by
  by_cases hc : g.HasChain k n
  · exact .inr ((h.mem_pending n).mpr ⟨hn, hc⟩)
  · exact .inl ((h.mem_placed n).mpr ⟨hn, hc⟩)

/-- **One round** places the nodes of depth `k`. -/
theorem next (h : g.AtRound k placed pending) {stage : List Nat}
    (hstage : g.arrange placed (g.queued placed pending) = .ok stage) :
    g.AtRound (k + 1) (placed ++ stage) (g.waiting placed pending) where
  mem_pending _ := h.mem_waiting_iff
  mem_placed n := by
    rw [List.mem_append, Runs.mem_stage hstage, h.mem_placed, h.mem_queued_iff, depth_eq_iff]
    constructor
    · rintro (⟨hn, hc⟩ | ⟨hn, -, hc⟩)
      · exact ⟨hn, fun hs => hc hs.of_succ⟩
      · exact ⟨hn, hc⟩
    · rintro ⟨hn, hc⟩
      by_cases hk : g.HasChain k n
      · exact .inr ⟨hn, hk, hc⟩
      · exact .inl ⟨hn, hk⟩

end AtRound

/-- **Stages are by depth.** -/
theorem Runs.depth_eq {placed pending : List Nat} {stages : List (List Nat)}
    (h : g.Runs placed pending stages) {k : Nat} (hk : g.AtRound k placed pending) {n : Nat}
    (hn : n ∈ pending) : g.depth n = (k + stages.findIdx (n ∈ ·) : Nat) := by
  induction h generalizing k with
  | done => exact absurd hn List.not_mem_nil
  | @round placed pending stage stages _ _ hstage _ ih =>
    rw [List.findIdx_cons]
    by_cases hs : n ∈ stage
    · have hdepth := (hk.mem_queued_iff.mp ((mem_stage hstage).mp hs)).2
      simpa [hs] using hdepth
    · have hw : n ∈ g.waiting placed pending :=
        mem_waiting_of_not_mem_queued hn (fun hq => hs ((mem_stage hstage).mpr hq))
      rw [ih (hk.next hstage) hw]
      simp only [hs, decide_false, cond_false]
      rw [Nat.add_assoc, Nat.add_comm 1]

/-- **A run fails** on a cycle, or on a requirement that is deeper than what
requires it.

A round fails in three ways. If nothing can be queued then whatever is pending
comes after something that is pending, and there is a cycle. If something is
required that is neither placed nor queued then it is deeper. If the queue
cannot be put in order then whatever is stuck requires something that is stuck,
and there is a cycle again. -/
theorem Stops.cyclic_or_deeper {placed pending : List Nat} {cycle : Cycle}
    (h : g.Stops placed pending cycle) {k : Nat} (hk : g.AtRound k placed pending) :
    g.Cyclic ∨ ∃ n d, d ∈ g.dependencies .requires n ∧ g.depth n < g.depth d := by
  induction h generalizing k with
  | @unqueued placed pending hne hnone =>
    -- every pending node comes after another that is pending
    have hstep : ∀ n ∈ pending, ∃ d ∈ pending, g.DependsOn n d := by
      intro n hn
      have hq : n ∉ g.queued placed pending := hnone ▸ List.not_mem_nil
      obtain ⟨-, d, hd, hp⟩ := mem_waiting.mp (mem_waiting_of_not_mem_queued hn hq)
      have hd' := (hk.mem_placed_or_pending (lt_size_of_mem_dependencies hd).2).resolve_left hp
      exact ⟨d, hd', .after, hd⟩
    obtain ⟨n, -, hn⟩ := exists_cycle_of_forall_exists hne hstep
    exact .inl ⟨n, hn⟩
  | @unreachable placed pending cycle hcycle =>
    have hsome : ¬g.unreachable? (placed ++ g.queued placed pending)
        (g.queued placed pending) = none := by simp [hcycle]
    rw [unreachable?_eq_none_iff] at hsome
    push Not at hsome
    obtain ⟨n, hn, d, hd, hacc⟩ := hsome
    rw [List.mem_append, not_or] at hacc
    have hsize := (lt_size_of_mem_dependencies hd).2
    have hpending := (hk.mem_placed_or_pending hsize).resolve_left hacc.1
    have hwaits := mem_waiting_of_not_mem_queued hpending hacc.2
    refine .inr ⟨n, d, hd, ?_⟩
    calc g.depth n = k := (hk.mem_queued_iff.mp hn).2
      _ < (k + 1 : Nat) := Nat.cast_lt.mpr (Nat.lt_succ_self k)
      _ ≤ g.depth d := le_depth_iff.mpr (hk.mem_waiting_iff.mp hwaits).2
  | @unarranged placed pending stuck hreach hstuck =>
    -- what a stuck node requires is at hand and not visible, so it is stuck itself
    obtain ⟨hne, hsub, hreq⟩ := arrange_error hstuck
    have hstep : ∀ n ∈ stuck, ∃ d ∈ stuck, g.DependsOn n d := by
      intro n hn
      obtain ⟨d, hd, hv, hin⟩ := hreq n hn
      have hacc := unreachable?_eq_none_iff.mp hreach n (hsub n hn) d hd
      exact ⟨d, hin ((List.mem_append.mp hacc).resolve_left hv), .requires, hd⟩
    obtain ⟨n, -, hn⟩ := exists_cycle_of_forall_exists hne hstep
    exact .inl ⟨n, hn⟩
  | later _ _ hstage _ ih => exact ih (hk.next hstage)

/-- A node that was scheduled is in the stage of its depth. -/
theorem depth_eq_stageOf {s : Schedule} (h : g.schedule = .ok s) {n : Nat} (hn : n < g.size) :
    g.depth n = s.stageOf n := by
  have hdepth := (runs_of_schedule_eq_ok h).depth_eq atRound_zero (mem_indices.mpr hn)
  rwa [Nat.zero_add] at hdepth

/-!
## Graphs without a cycle

That a graph without a cycle has a schedule is shown by the scheduler itself, on
another graph. There all dependencies are strict, so that nothing can be deeper
than what requires it, and the scheduler can only fail on a cycle.
-/

/-- The graph with every requirement made strict. -/
def tighten (g : Graph) : Graph where
  vertices := g.vertices.map fun v => { v with after := v.after ++ v.requires, requires := [] }
  closed v hv c d hd := by
    obtain ⟨w, hw, rfl⟩ := List.mem_map.mp hv
    rw [List.length_map]
    cases c with
    | after =>
      obtain hd | hd := List.mem_append.mp hd
      · exact g.closed w hw .after d hd
      · exact g.closed w hw .requires d hd
    | requires => exact absurd hd List.not_mem_nil

/-- The nodes are the same. -/
theorem indices_tighten : g.tighten.indices = g.indices := by
  rw [indices, indices, size, size, tighten, List.length_map]

/-- All dependencies are strict, and they are the same but for that. -/
theorem mem_dependencies_tighten {c : Constraint} {n d : Nat} :
    d ∈ g.tighten.dependencies c n ↔ c = .after ∧ g.DependsOn n d := by
  have hor : g.DependsOn n d ↔ d ∈ g.dependencies .after n ∨ d ∈ g.dependencies .requires n :=
    ⟨fun ⟨c, hd⟩ => by cases c <;> simp [hd], fun h => h.elim (fun h => ⟨_, h⟩) (fun h => ⟨_, h⟩)⟩
  rw [hor]
  simp only [dependencies, tighten, List.getElem?_map]
  cases g.vertices[n]? <;> cases c <;> simp [Vertex.dependencies]

/-- **A graph without a cycle has a schedule**: the one of the graph with strict
requirements, where nothing can be deeper than what requires it. -/
theorem exists_respects_of_not_cyclic (h : ¬g.Cyclic) : ∃ s : Schedule, s.Respects g := by
  cases hs : g.tighten.schedule with
  | error cycle =>
    obtain ⟨n, hn⟩ | ⟨n, d, hd, -⟩ := (stops_of_schedule_eq_error hs).cyclic_or_deeper atRound_zero
    · have hstep : ∀ n d, g.tighten.DependsOn n d → g.DependsOn n d :=
        fun _ _ ⟨_, hd⟩ => (mem_dependencies_tighten.mp hd).2
      exact absurd ⟨n, TransGen.mono hstep _ _ hn⟩ h
    · cases (mem_dependencies_tighten.mp hd).1
  | ok s =>
    have hr : s.Respects g.tighten := (runs_of_schedule_eq_ok hs).respects
    have hstage : ∀ n d, g.DependsOn n d → s.stageOf d < s.stageOf n :=
      fun n d hd => hr.after n d (mem_dependencies_tighten.mpr ⟨rfl, hd⟩)
    exact ⟨s,
      { once := indices_tighten ▸ hr.once
        nonempty := hr.nonempty
        after := fun n d hd => hstage n d ⟨.after, hd⟩
        requires := fun n d hd =>
          Schedule.position_lt_of_stageOf_lt (hstage n d ⟨.requires, hd⟩) }⟩

/-- **Which graphs are scheduled.** A schedule exists if there is no cycle, and
only then. One is refused if there is a cycle or a requirement deeper than what
requires it, and only then.

A graph with a schedule has no cycle, for a dependency is earlier in the order.
The other direction is `exists_respects_of_not_cyclic`. As to the scheduler,
whatever makes it fail is a cycle or a deeper requirement
(`Stops.cyclic_or_deeper`). If it succeeds then the stage of each node is its
depth, and as the schedule respects the graph nothing is required from a later
stage. -/
theorem schedule_eq_error_iff (g : Graph) :
    ((∃ s : Schedule, s.Respects g) ↔ ¬g.Cyclic) ∧
      ((∃ cycle, g.schedule = .error cycle) ↔
        g.Cyclic ∨ ∃ n d, d ∈ g.dependencies .requires n ∧ g.depth n < g.depth d) := by
  refine ⟨⟨fun ⟨s, hs⟩ => not_cyclic_of_respects hs, exists_respects_of_not_cyclic⟩, ?_⟩
  constructor
  · rintro ⟨cycle, h⟩
    exact (stops_of_schedule_eq_error h).cyclic_or_deeper atRound_zero
  · intro h
    cases hs : g.schedule with
    | error cycle => exact ⟨cycle, rfl⟩
    | ok s =>
      have hr : s.Respects g := (runs_of_schedule_eq_ok hs).respects
      obtain hcyclic | ⟨n, d, hd, hlt⟩ := h
      · exact absurd hcyclic (not_cyclic_of_respects hr)
      · have hsize := lt_size_of_mem_dependencies hd
        rw [depth_eq_stageOf hs hsize.1, depth_eq_stageOf hs hsize.2, Nat.cast_lt] at hlt
        exact absurd (Schedule.stageOf_le_of_position_lt (hr.requires n d hd)) (not_le.mpr hlt)

/-- A node that requires a deeper one. -/
def leap : Graph :=
  ((Graph.empty.addNode { label := "A" }).addNode { label := "B" }).addNode { label := "C" }
    |>.connect .after 1 2 |>.connect .requires 0 1

/-- **No cycle, and refused all the same.** There is a schedule that respects
the graph, and none is found. -/
theorem leap_refused :
    leap.schedule = .error (.mixed "A" ["B"]) ∧ ¬leap.Cyclic ∧
      (Schedule.mk [[2], [1, 0]]).Respects leap := by
  have h : leap.schedule = .error (.mixed "A" ["B"]) := by cbv
  have hrespects : (Schedule.mk [[2], [1, 0]]).Respects leap := by decide
  exact ⟨h, not_cyclic_of_respects hrespects, hrespects⟩

end Stagewise.Stage.Graph
