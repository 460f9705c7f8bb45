import Mathlib.Data.List.Permutation
import Stagewise.Proofs.Stage.Levels

/-!
# The cycles that are named

When a round fails because nodes wait for each other, or require each other, the
failure names some of them. The round only knows which nodes it is stuck with,
and there are more of these than are to blame: what merely depends on a cycle is
stuck as well. So it takes the strongly connected components of the stuck nodes,
keeps those with a cycle in them, and would name all stuck nodes if there were
none. In which order components are listed does not matter: what is named is
sorted.

It finds the cycles of the graph, and always one. Whoever is stuck depends on
somebody who is stuck, so that there is a cycle. And a cycle through a stuck
node is stuck as a whole: a node on it cannot have been placed before the
others, be it in an earlier round (`InOrder.not_transGen`) or in an earlier pass
of this one (`arrange_error_of_mem`). What is named is therefore all that lies
on a cycle and nothing else (`Graph.schedule_names_cycle`).
-/

namespace Stagewise.Stage.Graph

open Relation

variable {g : Graph} {c : Constraint} {k n : Nat} {placed pending visible queue : List Nat}

/-!
## Cycles under one constraint

The cycles that are reported are of one kind of dependency each. Those of nodes
that come after each other are found among the nodes that never become ready,
and those of nodes that require each other among the nodes of one queue.
-/

/-- A node depends on another under a constraint. -/
def Under (g : Graph) (c : Constraint) (n d : Nat) : Prop := d ∈ g.dependencies c n

/-- **A node lies on a cycle** of dependencies under a constraint. -/
def OnCycle (g : Graph) (c : Constraint) (n : Nat) : Prop := TransGen (g.Under c) n n

/-- What comes next on a cycle is on it. -/
theorem OnCycle.exists_under (h : g.OnCycle c n) : ∃ d ∈ g.dependencies c n, g.OnCycle c d := by
  obtain ⟨d, hd, hback⟩ := TransGen.head'_iff.mp h
  exact ⟨d, hd, .tail' hback hd⟩

/-- Only nodes of the graph are on cycles. -/
theorem OnCycle.mem_indices (h : g.OnCycle c n) : n ∈ g.indices := by
  obtain ⟨d, hd, -⟩ := h.exists_under
  exact mem_indices_of_mem_dependencies hd

/-- **Names are those of a cycle**: of the nodes of a list that lie on a cycle,
and of no others, in the order in which they were added. There is at least
one. -/
def NamesCycle (g : Graph) (c : Constraint) (nodes : List Nat) (names : List String) : Prop :=
  ∃ members, members ≠ [] ∧ members.Pairwise (· < ·) ∧
    (∀ n, n ∈ members ↔ n ∈ nodes ∧ g.OnCycle c n) ∧ names = g.labels members

/-- Dependencies among some nodes, again restricted to these. -/
theorem stepIn_within {nodes : List Nat} :
    StepIn (g.within c nodes) nodes = StepIn (g.dependencies c) nodes := by
  funext n d
  refine propext ⟨fun h => ⟨(List.mem_filter.mp h.1).1, h.2⟩, fun h => ⟨?_, h.2⟩⟩
  exact List.mem_filter.mpr ⟨h.1, decide_eq_true h.2⟩

/-- **The components with a cycle hold the nodes on cycles.** -/
theorem mem_flatten_filter_isCyclic_iff {nodes : List Nat} {cs : List (List Nat)}
    (hnodup : nodes.Nodup) (h : Components (g.within c nodes) nodes cs) :
    n ∈ (cs.filter (g.isCyclic c nodes)).flatten ↔
      n ∈ nodes ∧ TransGen (StepIn (g.dependencies c) nodes) n n := by
  rw [List.mem_flatten, ← stepIn_within]
  constructor
  · rintro ⟨component, hmem, hn⟩
    obtain ⟨hcs, hcyclic⟩ := List.mem_filter.mp hmem
    refine ⟨h.mem_nodes hcs hn, ?_⟩
    obtain hlength | hself := Bool.or_eq_true_iff.mp hcyclic
    · exact h.transGen_of_length hnodup hcs hn (of_decide_eq_true hlength)
    · by_cases hlength : 1 < component.length
      · exact h.transGen_of_length hnodup hcs hn hlength
      · -- its only node depends on itself
        obtain ⟨m, hm, hloop⟩ : ∃ m, component.head? = some m ∧ m ∈ g.within c nodes m := by
          simpa [Option.any_eq_true] using hself
        obtain ⟨rest, rfl⟩ := List.head?_eq_some_iff.mp hm
        obtain rfl : rest = [] := by
          rw [List.length_cons] at hlength
          exact List.length_eq_zero_iff.mp (by omega)
        obtain rfl := List.mem_singleton.mp hn
        exact .single ⟨hloop, h.mem_nodes hcs hn⟩
  · rintro ⟨hn, hcycle⟩
    obtain ⟨component, hcs, hmem⟩ := h.exists_mem hn
    refine ⟨component, List.mem_filter.mpr ⟨hcs, Bool.or_eq_true_iff.mpr ?_⟩, hmem⟩
    obtain hlength | ⟨rfl, hloop⟩ := h.length_or_mem_next hcs hmem hcycle
    · exact .inl (decide_eq_true hlength)
    · exact .inr (decide_eq_true hloop)

/-- **The cycles among some nodes are those of the graph** if a cycle through
one of them does not leave them. -/
theorem transGen_stepIn_iff {nodes : List Nat} (hn : n ∈ nodes)
    (hin : ∀ n ∈ nodes, ∀ d ∈ g.dependencies c n, g.OnCycle c d → d ∈ nodes) :
    TransGen (StepIn (g.dependencies c) nodes) n n ↔ g.OnCycle c n := by
  refine ⟨fun h => TransGen.mono (fun _ _ hs => hs.1) _ _ h, fun h => ?_⟩
  exact transGen_stepIn hn (fun b hb d hd hback => hin b hb d hd (.tail' hback hd)) h

/-- Numbers that are distinct are sorted strictly. -/
theorem pairwise_lt_mergeSort {l : List Nat} (h : l.Nodup) : l.mergeSort.Pairwise (· < ·) := by
  have hle : l.mergeSort.Pairwise (· ≤ ·) := List.pairwise_mergeSort' (· ≤ ·) l
  have hne : l.mergeSort.Nodup := (List.mergeSort_perm l _).nodup_iff.mpr h
  exact hle.imp₂ (fun _ _ => Nat.lt_of_le_of_ne) hne

/-- **Cycle members are the nodes on cycles, in order**, whatever the order of
the components, if there is a cycle at all. -/
theorem cycleMembers_spec {nodes : List Nat} {cs : List (List Nat)}
    (hsorted : nodes.Pairwise (· < ·)) (h : Components (g.within c nodes) nodes cs)
    (hne : (cs.filter (g.isCyclic c nodes)).flatten ≠ []) :
    (g.cycleMembers c nodes cs).Pairwise (· < ·) ∧ ∀ n, n ∈ g.cycleMembers c nodes cs ↔
      n ∈ nodes ∧ TransGen (StepIn (g.dependencies c) nodes) n n := by
  have hnodup : nodes.Nodup := hsorted.imp fun hlt => Nat.ne_of_lt hlt
  have heq : g.cycleMembers c nodes cs
      = (cs.filter (g.isCyclic c nodes)).flatten.mergeSort := by
    rw [cycleMembers, if_neg fun hempty => hne (List.isEmpty_iff.mp hempty)]
  have hflat : (cs.filter (g.isCyclic c nodes)).flatten.Nodup :=
    (h.perm.nodup_iff.mpr hnodup).sublist (List.filter_sublist.flatten)
  rw [heq]
  exact ⟨pairwise_lt_mergeSort hflat, fun n => by
    rw [List.mem_mergeSort, mem_flatten_filter_isCyclic_iff hnodup h]⟩

/-- **Nodes that are stuck name their cycles**: each depends on one of them, so
there is a cycle, and its nodes are named and not all. -/
theorem namesCycle_cycleMembers {nodes stuck : List Nat} (hne : stuck ≠ [])
    (hsorted : stuck.Pairwise (· < ·)) (hstep : ∀ n ∈ stuck, ∃ d ∈ stuck, g.Under c n d)
    (hin : ∀ n ∈ stuck, ∀ d ∈ g.dependencies c n, g.OnCycle c d → d ∈ stuck)
    (hnodes : ∀ n, g.OnCycle c n → (n ∈ stuck ↔ n ∈ nodes)) :
    g.NamesCycle c nodes (g.stuckLabels c stuck) ∧
      ∀ cs, Components (g.within c stuck) stuck cs →
        (cs.filter (g.isCyclic c stuck)).flatten ≠ [] ∧
        g.stuckLabels c stuck = g.labels (g.cycleMembers c stuck cs) := by
  have hnodup : stuck.Nodup := hsorted.imp fun hlt => Nat.ne_of_lt hlt
  obtain ⟨n₀, hn₀, hcycle₀⟩ := exists_cycle_of_forall_exists hne hstep
  replace hcycle₀ := (transGen_stepIn_iff hn₀ hin).mpr hcycle₀
  have hfound {cs : List (List Nat)} (h : Components (g.within c stuck) stuck cs) :
      (cs.filter (g.isCyclic c stuck)).flatten ≠ [] :=
    List.ne_nil_of_mem ((mem_flatten_filter_isCyclic_iff hnodup h).mpr ⟨hn₀, hcycle₀⟩)
  have hcomputed : Components (g.within c stuck) stuck _ := components_spec hnodup
  obtain ⟨hmembers, hmem⟩ := cycleMembers_spec hsorted hcomputed (hfound hcomputed)
  refine ⟨⟨_, List.ne_nil_of_mem ((hmem n₀).mpr ⟨hn₀, hcycle₀⟩), hmembers, fun n => ?_, rfl⟩,
    fun cs hcs => ⟨hfound hcs, congrArg g.labels ?_⟩⟩
  · rw [hmem, and_congr_right fun hn => transGen_stepIn_iff hn hin]
    exact and_congr_left (hnodes n)
  · -- both lists are sorted and have the same members
    obtain ⟨hmembers', hmem'⟩ := cycleMembers_spec hsorted hcs (hfound hcs)
    exact List.Pairwise.eq_of_mem_iff hmembers hmembers' fun n => (hmem n).trans (hmem' n).symm

/-!
## Passes

A pass takes a node out when all that it requires is visible. Of the nodes of a
cycle none can be the first to go.
-/

/-- A pass leaves the nodes that stay in their order. -/
theorem pass_sublist (visible queue : List Nat) : (g.pass visible queue).2.Sublist queue := by
  induction queue generalizing visible with
  | nil => exact .slnil
  | cons n queue ih =>
    unfold pass
    split
    · exact (ih (n :: visible)).cons n
    · exact (ih visible).cons_cons n

/-- What is stuck stands in the order of the queue. -/
theorem arrange_error_sublist {stuck : List Nat} (h : g.arrange visible queue = .error stuck) :
    stuck.Sublist queue := by
  fun_induction arrange g visible queue generalizing stuck with
  | case1 => cases h
  | case2 =>
    cases h
    exact .refl _
  | case3 visible queue _ _ ih =>
    cases hrest : g.arrange (visible ++ (g.pass visible queue).1) (g.pass visible queue).2 with
    | ok rest => rw [hrest] at h; cases h
    | error left =>
      rw [hrest] at h
      cases h
      exact (ih hrest).trans (pass_sublist visible queue)

/-- **No pass takes out a node of a cycle** while no such node is visible: it
would have to see the next. -/
theorem not_onCycle_of_mem_pass (hv : ∀ n ∈ visible, ¬g.OnCycle .requires n) :
    ∀ n ∈ (g.pass visible queue).1, ¬g.OnCycle .requires n := by
  induction queue generalizing visible with
  | nil => exact fun n hn => absurd hn List.not_mem_nil
  | cons m queue ih =>
    unfold pass
    split
    · rename_i hready
      have hm : ¬g.OnCycle .requires m := by
        intro hcycle
        obtain ⟨d, hd, hon⟩ := hcycle.exists_under
        exact hv d (ready_iff.mp hready d hd) hon
      exact List.forall_mem_cons.mpr ⟨hm, ih (List.forall_mem_cons.mpr ⟨hm, hv⟩)⟩
    · exact ih hv

/-- **A cycle stays in the queue** until the end. -/
theorem arrange_error_of_mem {stuck : List Nat} (h : g.arrange visible queue = .error stuck)
    (hv : ∀ n ∈ visible, ¬g.OnCycle .requires n) (hn : n ∈ queue)
    (hcycle : g.OnCycle .requires n) : n ∈ stuck := by
  fun_induction arrange g visible queue generalizing stuck with
  | case1 => cases h
  | case2 =>
    cases h
    exact hn
  | case3 visible queue _ _ ih =>
    cases hrest : g.arrange (visible ++ (g.pass visible queue).1) (g.pass visible queue).2 with
    | ok rest => rw [hrest] at h; cases h
    | error left =>
      rw [hrest] at h
      cases h
      have htaken : ∀ n ∈ (g.pass visible queue).1, ¬g.OnCycle .requires n :=
        not_onCycle_of_mem_pass hv
      have hleft := List.mem_append.mp ((pass_perm (g := g) visible queue).mem_iff.mpr hn)
      exact ih hrest (List.forall_mem_append.mpr ⟨hv, htaken⟩)
        (hleft.resolve_left fun hmem => htaken n hmem hcycle)

/-- Nodes in order are on no cycle: what they require comes before them. -/
theorem InOrder.not_transGen {l : List Nat} (h : g.InOrder [] l) (hn : n ∈ l) :
    ¬g.OnCycle .requires n := by
  intro hcycle
  have hdrop : ∀ m, TransGen (g.Under .requires) n m → l.idxOf m < l.idxOf n := by
    intro m hm
    induction hm with
    | single hd => exact h.idxOf_lt hn hd List.not_mem_nil
    | @tail m d _ hd ih =>
      have hmem : m ∈ l := List.idxOf_lt_length_iff.mp (ih.trans (List.idxOf_lt_length_of_mem hn))
      exact (h.idxOf_lt hmem hd List.not_mem_nil).trans ih
  exact lt_irrefl _ (hdrop n hcycle)

/-!
## Rounds

A failure is one of a round, and what the round was given is what the rounds
before it left. All that was placed by them is in order, so that no cycle goes
through it.
-/

/-- **Round `k` begins**, with some nodes placed by the rounds before it and the
others pending. -/
inductive Begins (g : Graph) : Nat → List Nat → List Nat → Prop
  | first : Begins g 0 [] g.indices
  /-- The round before it succeeded. -/
  | next {k : Nat} {placed pending stage : List Nat} (before : Begins g k placed pending)
    (queued : g.queued placed pending ≠ [])
    (reachable : g.unreachable? (placed ++ g.queued placed pending)
      (g.queued placed pending) = none)
    (arranged : g.arrange placed (g.queued placed pending) = .ok stage) :
    Begins g (k + 1) (placed ++ stage) (g.waiting placed pending)

namespace Begins

/-- The rounds before it have placed the nodes of smaller depth. -/
theorem atRound (h : g.Begins k placed pending) : g.AtRound k placed pending := by
  induction h with
  | first => exact atRound_zero
  | next _ _ _ arranged ih => exact ih.next arranged

/-- All that was placed is in order. -/
theorem inOrder (h : g.Begins k placed pending) : g.InOrder [] placed := by
  induction h with
  | first => trivial
  | next _ _ _ arranged ih => exact ih.append ((arrange_ok arranged).2.mono fun _ hd => hd)

/-- Nodes stay in the order in which they were added. -/
theorem sorted (h : g.Begins k placed pending) : pending.Pairwise (· < ·) := by
  induction h with
  | first => exact List.pairwise_lt_range
  | next _ _ _ _ ih => exact ih.filter _

/-- **Where nothing can be queued**, the cycles of nodes that come after each
other are among those that are left. -/
theorem namesCycle_after (h : g.Begins k placed pending) (hleft : pending ≠ [])
    (hnone : g.queued placed pending = []) :
    g.NamesCycle .after g.indices (g.stuckLabels .after pending) ∧
      ∀ cs, Components (g.within .after pending) pending cs →
        (cs.filter (g.isCyclic .after pending)).flatten ≠ [] ∧
        g.stuckLabels .after pending = g.labels (g.cycleMembers .after pending cs) := by
  have hpending : ∀ n, g.OnCycle .after n → n ∈ pending := fun n hn =>
    (h.atRound.mem_pending n).mpr ⟨mem_indices.mp hn.mem_indices, hasChain_of_transGen hn hn⟩
  have hstep : ∀ n ∈ pending, ∃ d ∈ pending, g.Under .after n d := by
    intro n hn
    have hq : n ∉ g.queued placed pending := hnone ▸ List.not_mem_nil
    obtain ⟨-, d, hd, hp⟩ := mem_waiting.mp (mem_waiting_of_not_mem_queued hn hq)
    have hsize := (lt_size_of_mem_dependencies hd).2
    exact ⟨d, (h.atRound.mem_placed_or_pending hsize).resolve_left hp, hd⟩
  exact namesCycle_cycleMembers hleft h.sorted hstep (fun _ _ d _ hd => hpending d hd)
    fun n hn => iff_of_true (hpending n hn) hn.mem_indices

/-- **Where the queue cannot be put in order**, the cycles of nodes that require
each other and are in the queue are among those that are stuck. -/
theorem namesCycle_requires (h : g.Begins k placed pending) {stuck : List Nat}
    (hreach : g.unreachable? (placed ++ g.queued placed pending) (g.queued placed pending) = none)
    (hstuck : g.arrange placed (g.queued placed pending) = .error stuck) :
    g.NamesCycle .requires (g.queued placed pending) (g.stuckLabels .requires stuck) ∧
      ∀ cs, Components (g.within .requires stuck) stuck cs →
        (cs.filter (g.isCyclic .requires stuck)).flatten ≠ [] ∧
        g.stuckLabels .requires stuck = g.labels (g.cycleMembers .requires stuck cs) := by
  obtain ⟨hne, hsub, hreq⟩ := arrange_error hstuck
  have hplaced : ∀ n ∈ placed, ¬g.OnCycle .requires n := fun n hn => h.inOrder.not_transGen hn
  have hkept : ∀ n ∈ g.queued placed pending, g.OnCycle .requires n → n ∈ stuck :=
    fun n hn => arrange_error_of_mem hstuck hplaced hn
  -- what a queued node requires is at hand, so a cycle through the queue does not leave it
  have hin : ∀ n ∈ stuck, ∀ d ∈ g.dependencies .requires n, g.OnCycle .requires d → d ∈ stuck := by
    intro n hn d hd hcycle
    have hacc := unreachable?_eq_none_iff.mp hreach n (hsub n hn) d hd
    exact hkept d ((List.mem_append.mp hacc).resolve_left fun hp => hplaced d hp hcycle) hcycle
  have hstep : ∀ n ∈ stuck, ∃ d ∈ stuck, g.Under .requires n d := by
    intro n hn
    obtain ⟨d, hd, hv, hq⟩ := hreq n hn
    have hacc := unreachable?_eq_none_iff.mp hreach n (hsub n hn) d hd
    exact ⟨d, hq ((List.mem_append.mp hacc).resolve_left hv), hd⟩
  have hsorted : stuck.Pairwise (· < ·) :=
    (h.sorted.filter _).sublist (arrange_error_sublist hstuck)
  exact namesCycle_cycleMembers hne hsorted hstep hin fun n hn =>
    ⟨hsub n, fun hq => hkept n hq hn⟩

end Begins

/-- **The round that fails**, if the rounds from some round on fail. -/
theorem Stops.exists_begins {cycle : Cycle} (h : g.Stops placed pending cycle)
    (hk : g.Begins k placed pending) :
    ∃ k placed pending, g.Begins k placed pending ∧
      (pending ≠ [] ∧ g.queued placed pending = [] ∧
          cycle = .after (g.stuckLabels .after pending) ∨
        (∃ n missing, cycle = .mixed (g.label n) (g.labels missing)) ∨
        g.unreachable? (placed ++ g.queued placed pending) (g.queued placed pending) = none ∧
          ∃ stuck, g.arrange placed (g.queued placed pending) = .error stuck ∧
            cycle = .requires (g.stuckLabels .requires stuck)) := by
  induction h generalizing k with
  | unqueued left unqueued => exact ⟨k, _, _, hk, .inl ⟨left, unqueued, rfl⟩⟩
  | unreachable unreachable =>
    obtain ⟨n, missing, -, hcycle⟩ := hk.atRound.exists_names hk.sorted unreachable
    exact ⟨k, _, _, hk, .inr (.inl ⟨n, missing, hcycle⟩)⟩
  | unarranged reachable unarranged =>
    exact ⟨k, _, _, hk, .inr (.inr ⟨reachable, _, unarranged, rfl⟩)⟩
  | later queued reachable arranged _ ih => exact ih (hk.next queued reachable arranged)

/-! ## What is named -/

/-- **A failure names the nodes of cycles.** If nodes come after each other,
then all nodes of the graph are named that lie on a cycle of nodes that come
after each other. If nodes require each other, then the nodes of the round that
fails are named that lie on a cycle of requirements, and these are nodes of one
depth. In either case nothing else is named, what is named stands in the order
in which it was added, and there is something to name.

What is named is told from the strongly connected components of the nodes that
the round is left with, in whatever order these are found. Some of them have a
cycle, so that the nodes are never all named for lack of one. This is because
whoever is left depends on somebody who is left. -/
theorem schedule_names_cycle (g : Graph) :
    (∀ names, g.schedule = .error (.after names) →
      g.NamesCycle .after g.indices names ∧
      ∃ k placed pending, g.Begins k placed pending ∧ g.queued placed pending = [] ∧
        ∀ cs, Components (g.within .after pending) pending cs →
          (cs.filter (g.isCyclic .after pending)).flatten ≠ [] ∧
          names = g.labels (g.cycleMembers .after pending cs)) ∧
    ∀ names, g.schedule = .error (.requires names) →
      ∃ k placed pending stuck, g.Begins k placed pending ∧
        (∀ n, n ∈ g.queued placed pending ↔ n < g.size ∧ g.depth n = k) ∧
        g.NamesCycle .requires (g.queued placed pending) names ∧
        g.arrange placed (g.queued placed pending) = .error stuck ∧
        ∀ cs, Components (g.within .requires stuck) stuck cs →
          (cs.filter (g.isCyclic .requires stuck)).flatten ≠ [] ∧
          names = g.labels (g.cycleMembers .requires stuck cs) := by
  constructor
  · intro names h
    obtain ⟨k, placed, pending, hk, ⟨hleft, hnone, hcycle⟩ | ⟨n, missing, hcycle⟩ |
      ⟨-, stuck, -, hcycle⟩⟩ := (stops_of_schedule_eq_error h).exists_begins .first
    · obtain ⟨hnames, hall⟩ := hk.namesCycle_after hleft hnone
      obtain rfl := Cycle.after.inj hcycle
      exact ⟨hnames, k, placed, pending, hk, hnone, hall⟩
    · cases hcycle
    · cases hcycle
  · intro names h
    obtain ⟨k, placed, pending, hk, ⟨-, -, hcycle⟩ | ⟨n, missing, hcycle⟩ |
      ⟨hreach, stuck, hstuck, hcycle⟩⟩ := (stops_of_schedule_eq_error h).exists_begins .first
    · cases hcycle
    · cases hcycle
    · obtain ⟨hnames, hall⟩ := hk.namesCycle_requires hreach hstuck
      obtain rfl := Cycle.requires.inj hcycle
      exact ⟨k, placed, pending, stuck, hk, fun n => hk.atRound.mem_queued_iff, hnames, hstuck,
        hall⟩

/-- Two nodes that come after each other, one that comes after them, and one
that does not. -/
def knot : Graph :=
  Graph.empty.addNode { label := "c" } |>.addNode { label := "a" } |>.addNode { label := "d" }
    |>.addNode { label := "b" }
    |>.connect .after 0 1 |>.connect .after 1 3 |>.connect .after 3 1

/-- Two nodes that require each other, one that requires them, and one that
comes after them all and requires itself. -/
def tangle : Graph :=
  Graph.empty.addNode { label := "c" } |>.addNode { label := "a" } |>.addNode { label := "d" }
    |>.addNode { label := "b" }
    |>.connect .requires 0 1 |>.connect .requires 1 3 |>.connect .requires 3 1
    |>.connect .after 2 0 |>.connect .after 2 1 |>.connect .after 2 3 |>.connect .requires 2 2

/-- In both graphs there is a node that is stuck and not named. In the second
there is also one on a cycle of its own which is not in the round that fails. -/
theorem knot_and_tangle_named :
    knot.schedule = .error (.after ["a", "b"]) ∧ knot.NamesCycle .after knot.indices ["a", "b"] ∧
      tangle.schedule = .error (.requires ["a", "b"]) ∧
      ∃ k placed pending, tangle.Begins k placed pending ∧
        tangle.NamesCycle .requires (tangle.queued placed pending) ["a", "b"] := by
  have hknot : knot.schedule = .error (.after ["a", "b"]) := by cbv
  have htangle : tangle.schedule = .error (.requires ["a", "b"]) := by cbv
  have hnames := ((schedule_names_cycle knot).1 _ hknot).1
  obtain ⟨k, placed, pending, -, hk, -, hround, -⟩ := (schedule_names_cycle tangle).2 _ htangle
  exact ⟨hknot, hnames, htangle, k, placed, pending, hk, hround⟩

end Stagewise.Stage.Graph
