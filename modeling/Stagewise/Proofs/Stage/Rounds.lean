import Mathlib.Data.List.Perm.Basic
import Stagewise.Stage.Schedule

/-!
# What the rounds of a schedule do

`Graph.rounds` is a loop with a loop inside: a round queues nodes, and passes
over the queue put it in order. Here each of the loops is described once.
`Graph.InOrder` says what the passes produce, a list in which every node follows
what it requires. `Graph.Runs` says how a run of rounds succeeds and
`Graph.Stops` how it fails, both with one constructor for what a round can do,
and `Graph.rounds_spec` says that every run is one or the other. All that is
known about schedules is derived from these, and nothing else looks into the
loops.
-/

namespace Stagewise.Stage.Graph

variable {g : Graph}

/-!
## Dependencies

Both loops ask a node whether its dependencies under a constraint are in some
list.
-/

/-- The nodes of a dependency are nodes of the graph, at both of its ends. -/
theorem lt_size_of_mem_dependencies {c : Constraint} {n d : Nat}
    (h : d ∈ g.dependencies c n) : n < g.size ∧ d < g.size := by
  unfold dependencies at h
  split at h
  · rename_i v hv
    exact ⟨(List.getElem?_eq_some_iff.mp hv).1, g.closed v (List.mem_of_getElem? hv) c d h⟩
  · exact absurd h List.not_mem_nil

/-- Nodes are numbered from zero. -/
theorem mem_indices {n : Nat} : n ∈ g.indices ↔ n < g.size := List.mem_range

/-- Only nodes have dependencies. -/
theorem mem_indices_of_mem_dependencies {c : Constraint} {n d : Nat}
    (h : d ∈ g.dependencies c n) : n ∈ g.indices :=
  mem_indices.mpr (lt_size_of_mem_dependencies h).1

/-- A node is ready if all its dependencies are placed. -/
theorem ready_iff {c : Constraint} {placed : List Nat} {n : Nat} :
    g.ready c placed n = true ↔ ∀ d ∈ g.dependencies c n, d ∈ placed := by
  simp [ready]

/-- A node is not ready because of one of its dependencies. -/
theorem not_ready_iff {c : Constraint} {placed : List Nat} {n : Nat} :
    ¬g.ready c placed n = true ↔ ∃ d ∈ g.dependencies c n, d ∉ placed := by
  simp [ready]

/-!
## Passes over a queue

A pass goes through the queue once and takes out what is ready, and what it
takes out counts as visible from then on. Passes are made until one takes
nothing out.
-/

/-- **A list in order**: every node requires only what is visible or earlier in
the list. -/
def InOrder (g : Graph) (visible : List Nat) : List Nat → Prop
  | [] => True
  | n :: rest => (∀ d ∈ g.dependencies .requires n, d ∈ visible) ∧ g.InOrder (n :: visible) rest

/-- Seeing more does no harm. -/
theorem InOrder.mono {visible more l : List Nat} (h : g.InOrder visible l)
    (hsub : ∀ d ∈ visible, d ∈ more) : g.InOrder more l := by
  induction l generalizing visible more with
  | nil => trivial
  | cons n rest ih =>
    refine ⟨fun d hd => hsub d (h.1 d hd), ih h.2 (fun d hd => ?_)⟩
    obtain rfl | hd := List.mem_cons.mp hd
    · exact List.mem_cons_self
    · exact List.mem_cons_of_mem _ (hsub d hd)

/-- A list in order goes on with one that is in order once all of it is
visible. -/
theorem InOrder.append {visible l k : List Nat} (hl : g.InOrder visible l)
    (hk : g.InOrder (visible ++ l) k) : g.InOrder visible (l ++ k) := by
  induction l generalizing visible with
  | nil => exact hk.mono (fun d hd => by simpa using hd)
  | cons n rest ih =>
    refine ⟨hl.1, ih hl.2 (hk.mono (fun d hd => ?_))⟩
    rw [List.mem_append, List.mem_cons] at hd ⊢
    exact hd.elim (fun h => .inl (.inr h)) (fun h => h.elim (fun h => .inl (.inl h)) .inr)

/-- A pass takes a part of the queue out. -/
theorem pass_perm (visible queue : List Nat) :
    ((g.pass visible queue).1 ++ (g.pass visible queue).2).Perm queue := by
  induction queue generalizing visible with
  | nil => exact .refl _
  | cons n queue ih =>
    unfold pass
    split
    · exact (ih (n :: visible)).cons n
    · exact List.perm_middle.trans ((ih visible).cons n)

/-- What a pass takes out is in order. -/
theorem pass_inOrder (visible queue : List Nat) : g.InOrder visible (g.pass visible queue).1 := by
  induction queue generalizing visible with
  | nil => trivial
  | cons n queue ih =>
    unfold pass
    split
    · rename_i hr
      exact ⟨ready_iff.mp hr, ih (n :: visible)⟩
    · exact ih visible

/-- A pass that takes nothing out found nothing ready. -/
theorem not_ready_of_pass_eq_nil {visible queue : List Nat} (h : (g.pass visible queue).1 = []) :
    ∀ n ∈ queue, ¬g.ready .requires visible n = true := by
  induction queue with
  | nil => exact fun n hn => absurd hn List.not_mem_nil
  | cons m queue ih =>
    unfold pass at h
    split at h
    · exact absurd h (List.cons_ne_nil _ _)
    · rename_i hm
      intro n hn
      obtain rfl | hn := List.mem_cons.mp hn
      · exact hm
      · exact ih h n hn

/-- **A queue that was put in order.** -/
theorem arrange_ok {visible queue stage : List Nat} (h : g.arrange visible queue = .ok stage) :
    stage.Perm queue ∧ g.InOrder visible stage := by
  fun_induction arrange g visible queue generalizing stage with
  | case1 visible queue hempty =>
    cases h
    exact ⟨by rw [List.isEmpty_iff.mp hempty], trivial⟩
  | case2 => cases h
  | case3 visible queue _ _ ih =>
    cases hrest : g.arrange (visible ++ (g.pass visible queue).1) (g.pass visible queue).2 with
    | error stuck => rw [hrest] at h; cases h
    | ok rest =>
      rw [hrest] at h
      cases h
      obtain ⟨hperm, hord⟩ := ih hrest
      exact ⟨(hperm.append_left _).trans (pass_perm visible queue),
        (pass_inOrder visible queue).append hord⟩

/-- **A queue that could not be put in order**: of what is left, every node
requires something that is not visible, and that is left too if it was in the
queue. -/
theorem arrange_error {visible queue stuck : List Nat}
    (h : g.arrange visible queue = .error stuck) :
    stuck ≠ [] ∧ (∀ n ∈ stuck, n ∈ queue) ∧
      ∀ n ∈ stuck, ∃ d ∈ g.dependencies .requires n, d ∉ visible ∧ (d ∈ queue → d ∈ stuck) := by
  fun_induction arrange g visible queue generalizing stuck with
  | case1 => cases h
  | case2 visible queue hne hnone =>
    cases h
    refine ⟨fun hnil => hne (by rw [hnil]; rfl), fun n hn => hn, fun n hn => ?_⟩
    obtain ⟨d, hd, hv⟩ := not_ready_iff.mp (not_ready_of_pass_eq_nil hnone n hn)
    exact ⟨d, hd, hv, id⟩
  | case3 visible queue _ _ ih =>
    cases hrest : g.arrange (visible ++ (g.pass visible queue).1) (g.pass visible queue).2 with
    | ok rest => rw [hrest] at h; cases h
    | error left =>
      rw [hrest] at h
      cases h
      obtain ⟨hne, hsub, hreq⟩ := ih hrest
      have hmem : ∀ d, d ∈ queue ↔ d ∈ (g.pass visible queue).1 ∨ d ∈ (g.pass visible queue).2 :=
        fun d => (pass_perm visible queue).mem_iff.symm.trans List.mem_append
      refine ⟨hne, fun n hn => (hmem n).mpr (.inr (hsub n hn)), fun n hn => ?_⟩
      obtain ⟨d, hd, hv, hin⟩ := hreq n hn
      -- what this pass took out is visible to the later ones, so that `d` is not of it
      rw [List.mem_append, not_or] at hv
      exact ⟨d, hd, hv.1, fun hq => hin (((hmem d).mp hq).resolve_left hv.2)⟩

/-!
## Rounds

A round queues nodes, asks whether something is required that is out of reach,
and puts the queue in order. Each of the three may be what ends the run.
-/

/-- A round queues the pending nodes that come after nothing but placed ones. -/
theorem mem_queued {placed pending : List Nat} {n : Nat} :
    n ∈ g.queued placed pending ↔ n ∈ pending ∧ ∀ d ∈ g.dependencies .after n, d ∈ placed := by
  rw [queued, List.mem_filter, ready_iff]

/-- The others wait for something that is not placed. -/
theorem mem_waiting {placed pending : List Nat} {n : Nat} :
    n ∈ g.waiting placed pending ↔ n ∈ pending ∧ ∃ d ∈ g.dependencies .after n, d ∉ placed := by
  rw [waiting, List.mem_filter, decide_eq_true_iff, not_ready_iff]

/-- A round parts the pending nodes. -/
theorem queued_append_waiting_perm (placed pending : List Nat) :
    (g.queued placed pending ++ g.waiting placed pending).Perm pending := by
  have h := List.filter_append_perm (g.ready .after placed) pending
  refine (List.Perm.append_left _ (List.Perm.of_eq ?_)).trans h
  exact List.filter_congr (fun n _ => by simp)

/-- What is not queued waits. -/
theorem mem_waiting_of_not_mem_queued {placed pending : List Nat} {n : Nat} (hn : n ∈ pending)
    (hq : n ∉ g.queued placed pending) : n ∈ g.waiting placed pending := by
  have hparts := (queued_append_waiting_perm (g := g) placed pending).mem_iff.mpr hn
  exact (List.mem_append.mp hparts).resolve_left hq

/-- What is out of reach is required and not accessible. -/
theorem mem_missing {accessible : List Nat} {n d : Nat} :
    d ∈ g.missing accessible n ↔ d ∈ g.dependencies .requires n ∧ d ∉ accessible := by
  simp only [missing]
  split
  · rename_i hnone
    have hnone := List.filter_eq_nil_iff.mp (List.isEmpty_iff.mp hnone)
    simpa using fun hd => by simpa using hnone d hd
  · rw [List.mem_filter, mem_indices]
    simp only [List.mem_filter, decide_eq_true_eq, and_iff_right_iff_imp]
    exact fun hd => (lt_size_of_mem_dependencies hd.1).2

/-- Nothing is out of reach exactly if all requirements are accessible. -/
theorem unreachable?_eq_none_iff {accessible queue : List Nat} :
    g.unreachable? accessible queue = none ↔
      ∀ n ∈ queue, ∀ d ∈ g.dependencies .requires n, d ∈ accessible := by
  rw [unreachable?, List.findSome?_eq_none_iff]
  refine forall₂_congr (fun n _ => ?_)
  rw [ite_eq_left_iff]
  simp only [reduceCtorEq, imp_false, not_not, List.isEmpty_iff, List.eq_nil_iff_forall_not_mem,
    mem_missing, not_and]

/-- **A run of rounds that succeeds** with these stages. -/
inductive Runs (g : Graph) : List Nat → List Nat → List (List Nat) → Prop
  | done (placed : List Nat) : Runs g placed [] []
  /-- One round, and the rounds after it. -/
  | round {placed pending stage : List Nat} {stages : List (List Nat)}
    (queued : g.queued placed pending ≠ [])
    (reachable : g.unreachable? (placed ++ g.queued placed pending)
      (g.queued placed pending) = none)
    (arranged : g.arrange placed (g.queued placed pending) = .ok stage)
    (rest : Runs g (placed ++ stage) (g.waiting placed pending) stages) :
    Runs g placed pending (stage :: stages)

/-- **A run of rounds that fails**, and the failure. -/
inductive Stops (g : Graph) : List Nat → List Nat → Cycle → Prop
  /-- Nothing can be queued. -/
  | unqueued {placed pending : List Nat} (left : pending ≠ [])
    (unqueued : g.queued placed pending = []) :
    Stops g placed pending (.after (g.stuckLabels .after pending))
  /-- Something queued requires what is out of reach. -/
  | unreachable {placed pending : List Nat} {cycle : Cycle}
    (unreachable : g.unreachable? (placed ++ g.queued placed pending)
      (g.queued placed pending) = some cycle) :
    Stops g placed pending cycle
  /-- The queue cannot be put in order. -/
  | unarranged {placed pending stuck : List Nat}
    (reachable : g.unreachable? (placed ++ g.queued placed pending)
      (g.queued placed pending) = none)
    (unarranged : g.arrange placed (g.queued placed pending) = .error stuck) :
    Stops g placed pending (.requires (g.stuckLabels .requires stuck))
  /-- This round succeeds, and a later one fails. -/
  | later {placed pending stage : List Nat} {cycle : Cycle}
    (queued : g.queued placed pending ≠ [])
    (reachable : g.unreachable? (placed ++ g.queued placed pending)
      (g.queued placed pending) = none)
    (arranged : g.arrange placed (g.queued placed pending) = .ok stage)
    (rest : Stops g (placed ++ stage) (g.waiting placed pending) cycle) :
    Stops g placed pending cycle

/-- **Every run succeeds or fails** in one of these ways. -/
theorem rounds_spec (placed pending : List Nat) :
    (∃ stages, g.rounds placed pending = .ok stages ∧ g.Runs placed pending stages) ∨
      ∃ cycle, g.rounds placed pending = .error cycle ∧ g.Stops placed pending cycle := by
  fun_induction rounds g placed pending with
  | case1 placed pending hempty =>
    rw [List.isEmpty_iff.mp hempty]
    exact .inl ⟨[], rfl, .done placed⟩
  | case2 placed pending hne hnone =>
    exact .inr ⟨_, rfl, .unqueued (fun hnil => hne (by rw [hnil]; rfl)) hnone⟩
  | case3 placed pending _ _ cycle hcycle => exact .inr ⟨cycle, rfl, .unreachable hcycle⟩
  | case4 placed pending _ _ hreach stuck hstuck => exact .inr ⟨_, rfl, .unarranged hreach hstuck⟩
  | case5 placed pending _ hqueued hreach stage hstage ih =>
    obtain ⟨stages, hrounds, hruns⟩ | ⟨cycle, hrounds, hstops⟩ := ih
    · rw [hrounds]
      exact .inl ⟨stage :: stages, rfl, .round hqueued hreach hstage hruns⟩
    · rw [hrounds]
      exact .inr ⟨cycle, rfl, .later hqueued hreach hstage hstops⟩

/-- A schedule comes from a run over all nodes. -/
theorem runs_of_schedule_eq_ok {s : Schedule} (h : g.schedule = .ok s) :
    g.Runs [] g.indices s.stages := by
  unfold schedule at h
  obtain ⟨stages, hrounds, hruns⟩ | ⟨cycle, hrounds, _⟩ := g.rounds_spec [] g.indices
  · rw [hrounds] at h
    cases h
    exact hruns
  · rw [hrounds] at h
    cases h

/-- So does the failure to find one. -/
theorem stops_of_schedule_eq_error {cycle : Cycle} (h : g.schedule = .error cycle) :
    g.Stops [] g.indices cycle := by
  unfold schedule at h
  obtain ⟨stages, hrounds, _⟩ | ⟨c, hrounds, hstops⟩ := g.rounds_spec [] g.indices
  · rw [hrounds] at h
    cases h
  · rw [hrounds] at h
    cases h
    exact hstops

end Stagewise.Stage.Graph
