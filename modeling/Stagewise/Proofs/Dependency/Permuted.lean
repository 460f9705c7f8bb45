import Stagewise.Proofs.Dependency.StageGraph
import Stagewise.Proofs.Stage.Depth

/-!
# The order of declarations does not matter to the schedule

Declarations are numbered in the order they stand in, and the stage graph is one
of numbers. If they stand in another order then it is another graph. But the
edges between names are the same (`Dependencies.edge_eq_of_perm`), and so are
the depths of names. A schedule is found or not by the depths and the cycles,
and a stage has the names of one depth. So if a schedule is found for the
declarations in one order then it is found for every order, and its stages have
the same names (`Dependencies.exists_schedule_of_perm`). Only the order within a
stage may be another.
-/

namespace Stagewise

open Relation

/-!
## Declarations in another order

What is said about declarations by name does not depend on their order, because
names are distinct.
-/

namespace Declarations

variable {ds ds' : Declarations}

/-- A name finds the same declaration. -/
theorem find?_eq_of_perm (h : ds.entries.Perm ds'.entries) (x : String) :
    ds'.find? x = ds.find? x := by
  refine Option.ext fun d => ?_
  rw [find?_eq_some_iff, find?_eq_some_iff, h.mem_iff]

theorem names_perm (h : ds.entries.Perm ds'.entries) : ds.names.Perm ds'.names := h.map _

/-- The same names are declared. -/
theorem declares_eq_of_perm (h : ds.entries.Perm ds'.entries) : ds'.declares = ds.declares := by
  funext x
  rw [Bool.eq_iff_iff, declares_iff, declares_iff, (names_perm h).mem_iff]

/-- The same names are those of functions. -/
theorem isFunction_eq_of_perm (h : ds.entries.Perm ds'.entries) (x : String) :
    ds'.isFunction x = ds.isFunction x := by
  rw [isFunction, isFunction, find?_eq_of_perm h]

end Declarations

namespace Stage.Graph

variable {g g' : Graph}

/-!
## Stages of the same depths

A run makes the first stage of the nodes of depth zero, the second of those of
depth one, and so on. Nothing else about the graph decides which nodes are in a
stage, only in which order they stand there.
-/

/-- **Labels tell nodes apart.** -/
def Labelled (g : Graph) : Prop :=
  ∀ m n, m < g.size → n < g.size → g.label m = g.label n → m = n

/-- The label of some node has a depth. -/
def HasLabel (g : Graph) (k : Nat) (x : String) : Prop :=
  ∃ n, n < g.size ∧ g.depth n = k ∧ g.label n = x

/-- The labels of a stage are those of its depth, each once. -/
theorem AtRound.labels_stage {k : Nat} {placed pending stage : List Nat}
    (h : g.AtRound k placed pending) (hg : g.Labelled) (hpending : pending.Nodup)
    (hstage : g.arrange placed (g.queued placed pending) = .ok stage) :
    (g.labels stage).Nodup ∧ ∀ x, x ∈ g.labels stage ↔ g.HasLabel k x := by
  have hmem (n : Nat) : n ∈ stage ↔ n < g.size ∧ g.depth n = k :=
    (Runs.mem_stage hstage).trans h.mem_queued_iff
  have hnodup : stage.Nodup := (arrange_ok hstage).1.nodup_iff.mpr (hpending.filter _)
  refine ⟨hnodup.map_on fun m hm n hn => hg m n ((hmem m).mp hm).1 ((hmem n).mp hn).1, fun x => ?_⟩
  rw [labels, List.mem_map]
  refine exists_congr fun n => ?_
  rw [hmem, and_assoc]

/-- **Runs by the same depths have the same stages**, but for the order within a
stage.

Both runs are at the same round, and what is left has the same labels at every
depth. So the next stages have the same labels, or there are none left in
either. -/
theorem Runs.forall₂_perm {placed pending placed' pending' : List Nat}
    {stages stages' : List (List Nat)} (h : g.Runs placed pending stages)
    (h' : g'.Runs placed' pending' stages') (hg : g.Labelled) (hg' : g'.Labelled)
    (hlabels : ∀ k x, g.HasLabel k x ↔ g'.HasLabel k x) {k : Nat}
    (hk : g.AtRound k placed pending) (hk' : g'.AtRound k placed' pending')
    (hpending : pending.Nodup) (hpending' : pending'.Nodup) :
    List.Forall₂ List.Perm (stages.map g.labels) (stages'.map g'.labels) := by
  induction h generalizing k placed' pending' stages' with
  | done placed =>
    cases h' with
    | done => exact .nil
    | round queued' =>
      -- a node of the one graph has a label, and so has one of the other
      obtain ⟨n', hn'⟩ := List.exists_mem_of_ne_nil _ queued'
      obtain ⟨hsize, hdepth⟩ := hk'.mem_queued_iff.mp hn'
      obtain ⟨n, hn, hd, -⟩ := (hlabels k (g'.label n')).mpr ⟨n', hsize, hdepth, rfl⟩
      exact absurd (hk.mem_queued_iff.mpr ⟨hn, hd⟩) List.not_mem_nil
  | @round placed pending stage stages queued _ hstage _ ih =>
    cases h' with
    | done =>
      obtain ⟨n, hn⟩ := List.exists_mem_of_ne_nil _ queued
      obtain ⟨hsize, hdepth⟩ := hk.mem_queued_iff.mp hn
      obtain ⟨n', hn', hd', -⟩ := (hlabels k (g.label n)).mp ⟨n, hsize, hdepth, rfl⟩
      exact absurd (hk'.mem_queued_iff.mpr ⟨hn', hd'⟩) List.not_mem_nil
    | round _ _ hstage' hrest' =>
      obtain ⟨hnodup, hmem⟩ := hk.labels_stage hg hpending hstage
      obtain ⟨hnodup', hmem'⟩ := hk'.labels_stage hg' hpending' hstage'
      refine .cons ((List.perm_ext_iff_of_nodup hnodup hnodup').mpr fun x => ?_) ?_
      · rw [hmem, hmem', hlabels]
      · exact ih hrest' (hk.next hstage) (hk'.next hstage') (hpending.filter _)
          (hpending'.filter _)

end Stage.Graph

namespace Dependencies

variable {deps : Dependencies} {ds ds' : Declarations} {x y : String} {i i' : Nat}

/-!
## Edges

An edge by names is said with targets, with paths, and with which names are
functions. None of these depends on the order.
-/

/-- What is collected under a name, by the declaration that the name finds. -/
theorem lookup_collect_eq (ds : Declarations) (x : String) :
    (collect ds).uses.lookup x = (ds.find? x).map Declaration.uses := by
  cases hfind : ds.find? x with
  | some d =>
    obtain ⟨hd, rfl⟩ := Declarations.find?_eq_some_iff.mp hfind
    exact lookup_collect hd
  | none =>
    refine List.lookup_eq_none_iff.mpr fun p hp => ?_
    obtain ⟨d, hd, rfl⟩ := List.mem_map.mp hp
    have hne : d.name ≠ x := fun hname => by
      rw [Declarations.find?_eq_some_iff.mpr ⟨hd, hname⟩] at hfind
      cases hfind
    exact bne_iff_ne.mpr hne.symm

/-- The same names are depended on. -/
theorem targets_eq_of_perm (h : ds.entries.Perm ds'.entries) (role : Role) (x : String) :
    (collect ds').targets ds' role x = (collect ds).targets ds role x := by
  rw [targets, targets, names, names, lookup_collect_eq, lookup_collect_eq,
    Declarations.find?_eq_of_perm h, Declarations.declares_eq_of_perm h]

/-- The relation between names is the same. -/
theorem dependsOn_eq_of_perm (h : ds.entries.Perm ds'.entries) :
    (collect ds').DependsOn ds' = (collect ds).DependsOn ds := by
  funext x y
  exact congrArg _ (funext fun role => by rw [targets_eq_of_perm h])

/-- **The edges between names** are the same. -/
theorem edge_eq_of_perm (h : ds.entries.Perm ds'.entries) :
    (collect ds').Edge ds' = (collect ds).Edge ds := by
  funext x y c
  cases c with
  | after => rw [Edge, Edge, targets_eq_of_perm h]
  | requires =>
    rw [Edge, Edge, targets_eq_of_perm h, Declarations.isFunction_eq_of_perm h,
      Declarations.isFunction_eq_of_perm h, DependsThroughType, DependsThroughType,
      dependsOn_eq_of_perm h]
    simp only [targets_eq_of_perm h]

/-!
## Depths

The depth of a node is the length of the longest chain from it. Chains are
carried over from one order to the other, node by node, by the names.
-/

/-- A chain of declarations is one in any order. -/
theorem hasChain_of_perm (h : ds.entries.Perm ds'.entries) {k : Nat}
    (hi : ds.index? x = some i) (hi' : ds'.index? x = some i')
    (hchain : ((collect ds).stageGraph ds).HasChain k i) :
    ((collect ds').stageGraph ds').HasChain k i' := by
  induction k generalizing x i i' with
  | zero => trivial
  | succ k ih =>
    obtain ⟨j, hj, hchain⟩ := hchain
    obtain ⟨x', y, hx', hy, hedge⟩ := mem_dependencies_stageGraph.mp hj
    obtain rfl := Declarations.eq_of_index?_eq hi hx'
    have hname : y ∈ ds'.names := (Declarations.names_perm h).mem_iff.mp
      (List.mem_of_getElem? (Declarations.index?_eq_some_iff.mp hy))
    obtain ⟨j', hj'⟩ := Declarations.exists_index?_of_mem_names hname
    refine ⟨j', (mem_dependencies_iff hi' hj').mpr ?_, ih hy hj' hchain⟩
    rwa [edge_eq_of_perm h]

/-- **The depth of a declaration** is the same. -/
theorem depth_eq_of_perm (h : ds.entries.Perm ds'.entries) (hi : ds.index? x = some i)
    (hi' : ds'.index? x = some i') :
    ((collect ds').stageGraph ds').depth i' = ((collect ds).stageGraph ds).depth i := by
  refine ENat.eq_of_forall_natCast_le_iff fun k => ?_
  rw [Stage.Graph.le_depth_iff, Stage.Graph.le_depth_iff]
  exact ⟨hasChain_of_perm h.symm hi' hi, hasChain_of_perm h hi hi'⟩

/-!
## Schedules

That there is a schedule at all is not a matter of depths alone: within a stage
there must be no cycle of requirements. A cycle of nodes is one of names, and
these are the same in every order.
-/

/-- A node has the name of what it evaluates. -/
theorem label_stageGraph (hi : ds.index? x = some i) : (deps.stageGraph ds).label i = x := by
  have hname := Declarations.index?_eq_some_iff.mp hi
  rw [Declarations.names, List.getElem?_map] at hname
  obtain ⟨d, hd, rfl⟩ := Option.map_eq_some_iff.mp hname
  have hnode : (deps.stageGraph ds).node? i = ds.entries[i]?.map node := node?_stageGraph i
  rw [hd, Stage.Graph.node?] at hnode
  obtain ⟨v, hv, heq⟩ := Option.map_eq_some_iff.mp hnode
  rw [Stage.Graph.label, hv]
  exact congrArg Stage.Node.label heq

/-- Every node is that of a declaration. -/
theorem exists_index?_eq_of_lt_size (hi : i < (deps.stageGraph ds).size) :
    ∃ x, ds.index? x = some i := by
  rw [size_stageGraph] at hi
  refine ⟨(ds.entries.get ⟨i, hi⟩).name, Declarations.index?_eq_some_iff.mpr ?_⟩
  exact Declarations.getElem?_names (List.getElem?_eq_getElem hi)

/-- Names are distinct, so nodes have distinct labels. -/
theorem labelled_stageGraph : (deps.stageGraph ds).Labelled := by
  intro i j hi hj hij
  obtain ⟨x, hx⟩ := exists_index?_eq_of_lt_size hi
  obtain ⟨y, hy⟩ := exists_index?_eq_of_lt_size hj
  rw [label_stageGraph hx, label_stageGraph hy] at hij
  exact Option.some.inj (hx.symm.trans (hij ▸ hy))

/-- The names of a depth are the same. -/
theorem hasLabel_of_perm (h : ds.entries.Perm ds'.entries) {k : Nat}
    (hx : ((collect ds).stageGraph ds).HasLabel k x) :
    ((collect ds').stageGraph ds').HasLabel k x := by
  obtain ⟨i, hi, hdepth, rfl⟩ := hx
  obtain ⟨x, hx⟩ := exists_index?_eq_of_lt_size hi
  rw [label_stageGraph hx]
  have hname := List.mem_of_getElem? (Declarations.index?_eq_some_iff.mp hx)
  obtain ⟨i', hi'⟩ := Declarations.exists_index?_of_mem_names
    ((Declarations.names_perm h).mem_iff.mp hname)
  refine ⟨i', ?_, (depth_eq_of_perm h hx hi').trans hdepth, label_stageGraph hi'⟩
  rw [size_stageGraph]
  exact Declarations.index?_lt_count hi'

/-- A schedule is found in any order, if it is found in one. -/
theorem schedule_ne_error_of_perm (h : ds.entries.Perm ds'.entries) {s : Stage.Schedule}
    (hs : ((collect ds).stageGraph ds).schedule = .ok s) (cycle : Cycle) :
    ((collect ds').stageGraph ds').schedule ≠ .error cycle := by
  intro hs'
  have hr := (Stage.Graph.runs_of_schedule_eq_ok hs).respects
  obtain hcyclic | ⟨i', j', hedge, hdepth⟩ :=
    (Stage.Graph.stops_of_schedule_eq_error hs').cyclic_or_deeper Stage.Graph.atRound_zero
  · refine Stage.Graph.not_cyclic_of_respects hr ?_
    rw [cyclic_stageGraph_iff] at hcyclic ⊢
    have hprecedes : (collect ds').Precedes ds' = (collect ds).Precedes ds := by
      funext x y
      rw [Precedes, Precedes, edge_eq_of_perm h]
    rwa [hprecedes] at hcyclic
  · obtain ⟨x, y, hi', hj', hedge⟩ := mem_dependencies_stageGraph.mp hedge
    have hmem {z : String} {l : Nat} (hz : ds'.index? z = some l) : ∃ l, ds.index? z = some l :=
      Declarations.exists_index?_of_mem_names ((Declarations.names_perm h).mem_iff.mpr
        (List.mem_of_getElem? (Declarations.index?_eq_some_iff.mp hz)))
    obtain ⟨i, hi⟩ := hmem hi'
    obtain ⟨j, hj⟩ := hmem hj'
    rw [edge_eq_of_perm h, ← mem_dependencies_iff hi hj] at hedge
    have hsize := Stage.Graph.lt_size_of_mem_dependencies hedge
    rw [depth_eq_of_perm h hi hi', depth_eq_of_perm h hj hj',
      Stage.Graph.depth_eq_stageOf hs hsize.1, Stage.Graph.depth_eq_stageOf hs hsize.2,
      Nat.cast_lt] at hdepth
    exact absurd (Stage.Schedule.stageOf_le_of_position_lt (hr.requires i j hedge))
      (not_le.mpr hdepth)

/-- **The order of declarations does not matter to the schedule**: if one is
found then it is found for any other order, and its stages have the same names.

There is one for the other order, as a graph is refused only for a cycle or for
nodes that never become ready, and both can be said by names. Then both
schedules are runs by depths, and the depths of names are the same. -/
theorem exists_schedule_of_perm (h : ds.entries.Perm ds'.entries) {s : Stage.Schedule}
    (hs : ((collect ds).stageGraph ds).schedule = .ok s) :
    ∃ s', ((collect ds').stageGraph ds').schedule = .ok s' ∧
      List.Forall₂ List.Perm (s.stages.map ((collect ds).stageGraph ds).labels)
        (s'.stages.map ((collect ds').stageGraph ds').labels) := by
  cases hs' : ((collect ds').stageGraph ds').schedule with
  | error cycle => exact absurd hs' (schedule_ne_error_of_perm h hs cycle)
  | ok s' =>
    refine ⟨s', rfl, ?_⟩
    exact (Stage.Graph.runs_of_schedule_eq_ok hs).forall₂_perm
      (Stage.Graph.runs_of_schedule_eq_ok hs') labelled_stageGraph labelled_stageGraph
      (fun k x => ⟨hasLabel_of_perm h, hasLabel_of_perm h.symm⟩) Stage.Graph.atRound_zero
      Stage.Graph.atRound_zero List.nodup_range List.nodup_range

end Dependencies

end Stagewise
