import Stagewise.Proofs.Dependency.Paths
import Stagewise.Proofs.Stage.Soundness

/-!
# The stage graph of a module

`Dependencies.stageGraph` is built by two loops, one that adds the nodes and one
that connects them. Read by names it says the following: a declaration comes
after what it uses as a type, and requires what it uses as a value, except that
a function requires another only if that one depends on it through a type.
`Dependencies.mem_dependencies_stageGraph` is this reading.

The exception could let a circle through, and it does let through the circles of
functions that only call each other. A circle with a use as a type on it is
never let through. Whichever step of the circle is taken, the rest of the circle
leads back, and if the step is not itself the use as a type then the rest has
it. So the condition of the exception is met all around, the whole circle is in
the graph, and the graph has no schedule.
-/

namespace Stagewise

open Relation

/-!
## Building a graph

All nodes are added before any two of them are connected. So when an edge is
added its ends are there, and it is not dropped.
-/

namespace Stage.Graph

variable {g : Graph}

/-- The nodes of a graph, without their dependencies. -/
def nodes (g : Graph) : List Node := g.vertices.map (·.toNode)

/-- The size of a graph is the number of its nodes. -/
theorem size_eq_length_nodes : g.size = g.nodes.length := (List.length_map _).symm

/-- A node is found by its number. -/
theorem node?_eq_getElem?_nodes (i : Nat) : g.node? i = g.nodes[i]? := List.getElem?_map.symm

/-- A node is added at the end. -/
theorem nodes_addNode (n : Node) : (g.addNode n).nodes = g.nodes ++ [n] := List.map_append

/-- A new node has no dependencies, and the others keep theirs. -/
theorem dependencies_addNode (n : Node) (c : Constraint) (i : Nat) :
    (g.addNode n).dependencies c i = g.dependencies c i := by
  unfold dependencies addNode
  by_cases hi : i < g.vertices.length
  · rw [List.getElem?_append_left hi]
  · have hi := Nat.le_of_not_lt hi
    rw [List.getElem?_append_right hi, List.getElem?_eq_none hi]
    cases i - g.vertices.length <;> cases c <;> rfl

/-- Connecting two nodes changes no node. -/
theorem nodes_connect (c : Constraint) (n d : Nat) : (g.connect c n d).nodes = g.nodes := by
  unfold connect
  split
  · refine List.ext_getElem? (fun i => ?_)
    show ((g.vertices.modify n (·.depend c d)).map (·.toNode))[i]? = _
    rw [nodes, List.getElem?_map, List.getElem?_map, List.getElem?_modify]
    cases g.vertices[i]? with
    | none => rfl
    | some v =>
      simp only [Option.map_some]
      split <;> cases c <;> rfl
  · rfl

/-- Connecting two nodes adds the one dependency. -/
theorem mem_dependencies_connect {b c : Constraint} {n d m e : Nat} (hn : n < g.size)
    (hd : d < g.size) :
    e ∈ (g.connect c n d).dependencies b m ↔
      e ∈ g.dependencies b m ∨ (b = c ∧ m = n ∧ e = d) := by
  unfold connect
  rw [dif_pos ⟨hn, hd⟩]
  unfold dependencies
  dsimp only
  rw [List.getElem?_modify]
  by_cases hm : n = m
  · subst hm
    rw [List.getElem?_eq_getElem hn]
    simp [Vertex.mem_dependencies_depend]
  · simp [hm, Ne.symm hm]

end Stage.Graph

/-!
## Names and nodes

The loops go through the declarations in order. So a node has the number of its
declaration, and an edge between names becomes one between numbers.
-/

namespace Dependencies

variable {deps : Dependencies} {ds : Declarations}

/-- The nodes alone. -/
theorem foldl_addNode (entries : List Declaration) (g : Stage.Graph) :
    (entries.foldl (fun g d => g.addNode (node d)) g).nodes = g.nodes ++ entries.map node ∧
      ∀ c i, (entries.foldl (fun g d => g.addNode (node d)) g).dependencies c i
        = g.dependencies c i := by
  induction entries generalizing g with
  | nil => exact ⟨(List.append_nil _).symm, fun _ _ => rfl⟩
  | cons d entries ih =>
    obtain ⟨hnodes, hdeps⟩ := ih (g.addNode (node d))
    rw [List.foldl_cons]
    refine ⟨?_, fun c i => (hdeps c i).trans (Stage.Graph.dependencies_addNode ..)⟩
    rw [hnodes, Stage.Graph.nodes_addNode, List.append_assoc, List.map_cons]
    rfl

/-- An edge between declarations is one between their positions. -/
theorem mem_dependencies_connect {g : Stage.Graph} (hg : g.size = ds.count) {user used : String}
    {b c : Stage.Constraint} {i j : Nat} :
    j ∈ (connect ds g user (c, used)).dependencies b i ↔
      j ∈ g.dependencies b i ∨ (b = c ∧ ds.index? user = some i ∧ ds.index? used = some j) := by
  unfold connect
  dsimp only
  split
  · rename_i m k hm hk
    rw [Stage.Graph.mem_dependencies_connect (hg ▸ Declarations.index?_lt_count hm)
      (hg ▸ Declarations.index?_lt_count hk), hm, hk, Option.some.injEq, Option.some.injEq,
      eq_comm (a := i), eq_comm (a := j)]
  · rename_i hno
    refine ⟨.inl, fun h => h.resolve_right ?_⟩
    rintro ⟨-, hi, hj⟩
    exact hno i j hi hj

/-- An edge between declarations adds no node. -/
theorem nodes_connect {g : Stage.Graph} (user : String) (e : Stage.Constraint × String) :
    (connect ds g user e).nodes = g.nodes := by
  unfold connect
  dsimp only
  split
  · exact Stage.Graph.nodes_connect ..
  · rfl

/-- The edges of one declaration. -/
theorem foldl_connect (user : String) (es : List (Stage.Constraint × String)) {g : Stage.Graph}
    (hg : g.size = ds.count) :
    (es.foldl (connect ds · user) g).nodes = g.nodes ∧
      ∀ c i j, j ∈ (es.foldl (connect ds · user) g).dependencies c i ↔
        j ∈ g.dependencies c i ∨
          ∃ used, (c, used) ∈ es ∧ ds.index? user = some i ∧ ds.index? used = some j := by
  induction es generalizing g with
  | nil => exact ⟨rfl, fun c i j => by simp⟩
  | cons e es ih =>
    obtain ⟨c', used'⟩ := e
    -- the nodes stay the same, and so there are still enough of them for the next edge
    have hsame : (connect ds g user (c', used')).nodes = g.nodes := nodes_connect user _
    obtain ⟨hnodes, hdeps⟩ := ih (by rwa [Stage.Graph.size_eq_length_nodes, hsame,
      ← Stage.Graph.size_eq_length_nodes])
    refine ⟨hnodes.trans hsame, fun c i j => ?_⟩
    rw [List.foldl_cons, hdeps, mem_dependencies_connect hg, or_assoc]
    refine or_congr_right ?_
    simp only [List.mem_cons, Prod.mk.injEq, or_and_right, exists_or]
    refine or_congr_left ⟨?_, ?_⟩
    · rintro ⟨rfl, hi, hj⟩
      exact ⟨used', ⟨rfl, rfl⟩, hi, hj⟩
    · rintro ⟨_, ⟨rfl, rfl⟩, hi, hj⟩
      exact ⟨rfl, hi, hj⟩

/-- The edges of all declarations. -/
theorem foldl_edges (es : Declaration → List (Stage.Constraint × String))
    (entries : List Declaration) {g : Stage.Graph} (hg : g.size = ds.count) :
    (entries.foldl (fun g d => (es d).foldl (connect ds · d.name) g) g).nodes = g.nodes ∧
      ∀ c i j,
        j ∈ (entries.foldl (fun g d => (es d).foldl (connect ds · d.name) g) g).dependencies c i ↔
          j ∈ g.dependencies c i ∨
            ∃ d ∈ entries, ∃ used, (c, used) ∈ es d ∧
              ds.index? d.name = some i ∧ ds.index? used = some j := by
  induction entries generalizing g with
  | nil => exact ⟨rfl, fun c i j => by simp⟩
  | cons d entries ih =>
    obtain ⟨hsame, hdeps₁⟩ := foldl_connect d.name (es d) hg
    obtain ⟨hnodes, hdeps⟩ := ih (by rwa [Stage.Graph.size_eq_length_nodes, hsame,
      ← Stage.Graph.size_eq_length_nodes])
    refine ⟨hnodes.trans hsame, fun c i j => ?_⟩
    rw [List.foldl_cons, hdeps, hdeps₁, or_assoc]
    simp only [List.mem_cons, or_and_right, exists_or, exists_eq_left]

/-- The nodes are enough for all declarations. -/
theorem size_nodes :
    (ds.entries.foldl (fun g d => g.addNode (node d)) Stage.Graph.empty).size = ds.count := by
  rw [Stage.Graph.size_eq_length_nodes, (foldl_addNode _ _).1]
  exact List.length_map _

/-- **Node `i` evaluates declaration `i`.** -/
theorem node?_stageGraph (i : Nat) : (deps.stageGraph ds).node? i = ds.entries[i]?.map node := by
  rw [Stage.Graph.node?_eq_getElem?_nodes, stageGraph, (foldl_edges _ _ size_nodes).1,
    (foldl_addNode _ _).1]
  exact List.getElem?_map

/-- There is a node for each declaration. -/
theorem size_stageGraph : (deps.stageGraph ds).size = ds.count := by
  rw [Stage.Graph.size_eq_length_nodes, stageGraph, (foldl_edges _ _ size_nodes).1,
    ← Stage.Graph.size_eq_length_nodes, size_nodes]

/-!
## Edges

Whether a function requires a function is read off a table of what is evaluated
before each function, which is made once for the whole module. By names this is
`DependsThroughType`, the other way around.
-/

/-- What is evaluated before a function, read off the table. -/
theorem lookup_precedence (x : String) :
    (deps.precedence ds).lookup x
      = if ds.isFunction x then some (deps.evaluatedBefore ds x) else none := by
  rw [precedence, Declarations.isFunction, Declarations.find?_eq]
  have hdistinct := ds.distinct
  generalize ds.entries = entries at hdistinct
  induction entries with
  | nil => rfl
  | cons d entries ih =>
    rw [List.map_cons, List.nodup_cons] at hdistinct
    have ih := ih hdistinct.2
    by_cases hx : d.name = x
    · -- no other declaration has this name
      subst hx
      have hnone : entries.find? (·.name = d.name) = none :=
        List.find?_eq_none.mpr (fun e he => by
          simpa using fun h => hdistinct.1 (List.mem_map.mpr ⟨e, he, h⟩))
      rw [hnone] at ih
      cases hf : d.isFunction <;> simp [hf, ih]
    · have hne : (x == d.name) = false := beq_false_of_ne (Ne.symm hx)
      cases hf : d.isFunction <;> simp [List.lookup_cons, hf, ih, hx, hne]

/-- A use as a value leaves a requirement unless it is one of a function by a
function that the former is not needed for. -/
theorem isRequired_precedence {d : Declaration} (hd : d ∈ ds.entries) (used : String) :
    isRequired (deps.precedence ds) d used = true ↔
      (ds.isFunction d.name = true → ds.isFunction used = true →
        deps.DependsThroughType ds used d.name) := by
  unfold isRequired
  rw [lookup_precedence, Declarations.isFunction_name hd]
  cases ds.isFunction used with
  | false => simp
  | true =>
    rw [if_pos rfl]
    dsimp only
    rw [Bool.or_eq_true, decide_eq_true_iff, mem_evaluatedBefore]
    cases d.isFunction <;> simp

/-- **An edge of the stage graph**, by names. -/
def Edge (deps : Dependencies) (ds : Declarations) (x y : String) : Stage.Constraint → Prop
  | .after => y ∈ deps.targets ds .type x
  | .requires => y ∈ deps.targets ds .value x ∧
    (ds.isFunction x = true → ds.isFunction y = true → deps.DependsThroughType ds y x)

/-- The edges that are connected for a declaration are its edges by names. -/
theorem mem_edges {d : Declaration} (hd : d ∈ ds.entries) {c : Stage.Constraint} {used : String} :
    (c, used) ∈ deps.edges ds (deps.precedence ds) d ↔ deps.Edge ds d.name used c := by
  unfold edges
  rw [List.mem_append, List.mem_map, List.mem_map]
  cases c with
  | after => simp [Edge]
  | requires => simp [Edge, isRequired_precedence hd]

/-- **The dependencies of the stage graph** are the edges between names. -/
theorem mem_dependencies_stageGraph {c : Stage.Constraint} {i j : Nat} :
    j ∈ (deps.stageGraph ds).dependencies c i ↔
      ∃ x y, ds.index? x = some i ∧ ds.index? y = some j ∧ deps.Edge ds x y c := by
  have hempty : ∀ c i, Stage.Graph.empty.dependencies c i = [] := fun _ _ => rfl
  unfold stageGraph
  dsimp only
  rw [(foldl_edges _ _ size_nodes).2, (foldl_addNode _ _).2, hempty]
  simp only [List.not_mem_nil, false_or]
  constructor
  · rintro ⟨d, hd, y, hy, hi, hj⟩
    exact ⟨d.name, y, hi, hj, (mem_edges hd).mp hy⟩
  · rintro ⟨x, y, hi, hj, hedge⟩
    have hx := List.mem_of_getElem? (Declarations.index?_eq_some_iff.mp hi)
    obtain ⟨d, hd, rfl⟩ := List.mem_map.mp hx
    exact ⟨d, hd, y, (mem_edges hd).mpr hedge, hi, hj⟩

/-- The dependencies of two nodes, by the names of what they evaluate. -/
theorem mem_dependencies_iff {c : Stage.Constraint} {x y : String} {i j : Nat}
    (hi : ds.index? x = some i) (hj : ds.index? y = some j) :
    j ∈ (deps.stageGraph ds).dependencies c i ↔ deps.Edge ds x y c := by
  rw [mem_dependencies_stageGraph]
  constructor
  · rintro ⟨x', y', hi', hj', hedge⟩
    rwa [Declarations.eq_of_index?_eq hi hi', Declarations.eq_of_index?_eq hj hj']
  · exact fun hedge => ⟨x, y, hi, hj, hedge⟩

/-!
## Circles

A cycle of the stage graph is a cycle of numbers. Since every number that has a
dependency is that of a declaration, and every name with an edge has a number,
it is a circle of names as well.
-/

/-- A declaration has an edge to another, under either constraint. -/
def Precedes (deps : Dependencies) (ds : Declarations) (x y : String) : Prop :=
  ∃ c, deps.Edge ds x y c

/-- What there is an edge to is declared. -/
theorem Precedes.mem_names {x y : String} (h : deps.Precedes ds x y) : y ∈ ds.names := by
  obtain ⟨c, hc⟩ := h
  cases c with
  | after => exact mem_names_of_mem_targets hc
  | requires => exact mem_names_of_mem_targets hc.1

/-- Two names have an edge exactly if their positions have a dependency. -/
theorem dependsOn_stageGraph_iff {x y : String} {i j : Nat} (hi : ds.index? x = some i)
    (hj : ds.index? y = some j) :
    (deps.stageGraph ds).DependsOn i j ↔ deps.Precedes ds x y :=
  exists_congr fun _ => mem_dependencies_iff hi hj

/-- A path of edges is a path of dependencies. -/
theorem exists_transGen_dependsOn {x y : String} {i : Nat} (hi : ds.index? x = some i)
    (h : TransGen (deps.Precedes ds) x y) :
    ∃ j, ds.index? y = some j ∧ TransGen (deps.stageGraph ds).DependsOn i j := by
  induction h with
  | single hs =>
    obtain ⟨j, hj⟩ := Declarations.exists_index?_of_mem_names hs.mem_names
    exact ⟨j, hj, .single ((dependsOn_stageGraph_iff hi hj).mpr hs)⟩
  | tail _ hs ih =>
    obtain ⟨j, hj, hpath⟩ := ih
    obtain ⟨k, hk⟩ := Declarations.exists_index?_of_mem_names hs.mem_names
    exact ⟨k, hk, hpath.tail ((dependsOn_stageGraph_iff hj hk).mpr hs)⟩

/-- A path of dependencies is a path of edges. -/
theorem exists_transGen_precedes {i j : Nat} {x : String} (hi : ds.index? x = some i)
    (h : TransGen (deps.stageGraph ds).DependsOn i j) :
    ∃ y, ds.index? y = some j ∧ TransGen (deps.Precedes ds) x y := by
  induction h with
  | single hs =>
    obtain ⟨c, hc⟩ := hs
    obtain ⟨x', y, hi', hj, hedge⟩ := mem_dependencies_stageGraph.mp hc
    exact ⟨y, hj, .single ⟨c, Declarations.eq_of_index?_eq hi hi' ▸ hedge⟩⟩
  | tail _ hs ih =>
    obtain ⟨y, hj, hpath⟩ := ih
    obtain ⟨c, hc⟩ := hs
    obtain ⟨y', z, hj', hk, hedge⟩ := mem_dependencies_stageGraph.mp hc
    exact ⟨z, hk, hpath.tail ⟨c, Declarations.eq_of_index?_eq hj hj' ▸ hedge⟩⟩

/-- **The cycles of the stage graph** are the circles of edges. -/
theorem cyclic_stageGraph_iff :
    (deps.stageGraph ds).Cyclic ↔ ∃ x, TransGen (deps.Precedes ds) x x := by
  constructor
  · rintro ⟨i, hcycle⟩
    obtain ⟨j, ⟨c, hc⟩, -⟩ := TransGen.head'_iff.mp hcycle
    obtain ⟨x, -, hi, -⟩ := mem_dependencies_stageGraph.mp hc
    obtain ⟨y, hi', hcircle⟩ := exists_transGen_precedes hi hcycle
    exact ⟨x, Declarations.eq_of_index?_eq hi' hi ▸ hcircle⟩
  · rintro ⟨x, hcircle⟩
    obtain ⟨y, -, hs⟩ := TransGen.tail'_iff.mp hcircle
    obtain ⟨i, hi⟩ := Declarations.exists_index?_of_mem_names hs.mem_names
    obtain ⟨j, hj, hcycle⟩ := exists_transGen_dependsOn hi hcircle
    exact ⟨i, Option.some.inj (hi.symm.trans hj) ▸ hcycle⟩

/-- A stage graph with a cycle is refused. -/
theorem schedule_eq_error_of_transGen {x : String} (h : TransGen (deps.Precedes ds) x x) :
    ∃ cycle, (deps.stageGraph ds).schedule = .error cycle := by
  cases hs : (deps.stageGraph ds).schedule with
  | error cycle => exact ⟨cycle, rfl⟩
  | ok s =>
    have hr := (Stage.Graph.runs_of_schedule_eq_ok hs).respects
    exact absurd (cyclic_stageGraph_iff.mpr ⟨x, h⟩) (Stage.Graph.not_cyclic_of_respects hr)

/-- **Types depend on each other in a circle**: a declaration is used as a type,
and depends on the one that uses it. -/
def TypeCircular (deps : Dependencies) (ds : Declarations) : Prop :=
  ∃ a b, b ∈ deps.targets ds .type a ∧ ReflTransGen (deps.DependsOn ds) b a

/-- A dependency on a circle with a use as a type has an edge, be it between
functions. -/
theorem precedes_of_circle {a b x y : String} (hab : b ∈ deps.targets ds .type a)
    (hbx : ReflTransGen (deps.DependsOn ds) b x) (hxy : deps.DependsOn ds x y)
    (hya : ReflTransGen (deps.DependsOn ds) y a) : deps.Precedes ds x y := by
  obtain ⟨role, hy⟩ := hxy
  cases role with
  | type => exact ⟨.after, hy⟩
  | value => exact ⟨.requires, hy, fun _ _ => ⟨a, b, hya, hab, hbx⟩⟩

/-- **Circular types are refused** before anything is checked.

Let `a` use `b` as a type, and let a path lead from `b` back to `a`. Every step
of that path has an edge. If it is a use as a type it has one anyway, and if it
is a use as a value then the rest of the path, the use of `b`, and the path up
to the step make up a path with a use as a type, so that the exception for
functions does not apply. With the edge from `a` to `b` this is a cycle of the
graph, and no schedule can respect it. -/
theorem schedule_eq_error_of_typeCircular (deps : Dependencies) (ds : Declarations)
    (h : deps.TypeCircular ds) : ∃ cycle, (deps.stageGraph ds).schedule = .error cycle := by
  obtain ⟨a, b, hab, hba⟩ := h
  have hpath : ∀ x, ReflTransGen (deps.DependsOn ds) b x → ReflTransGen (deps.DependsOn ds) x a →
      ReflTransGen (deps.Precedes ds) b x := by
    intro x hbx
    induction hbx with
    | refl => exact fun _ => .refl
    | tail hbx hxy ih =>
      intro hya
      exact (ih (.head hxy hya)).tail (precedes_of_circle hab hbx hxy hya)
  have hedge : deps.Precedes ds a b := ⟨.after, hab⟩
  exact schedule_eq_error_of_transGen (TransGen.head' hedge (hpath a hba .refl))

/-- A function picks the type of a parameter of another, and uses that
function. -/
def picking : Source.Module :=
  [.function
    { span := .nowhere, name := .unplaced "pick", params := []
      result := .var (.unplaced "Type"), body := .ofExpr (.var (.unplaced "a")) },
    .function
    { span := .nowhere, name := .unplaced "a"
      params := [⟨.unplaced "x", .call .nowhere (.var (.unplaced "pick")) []⟩]
      result := .var (.unplaced "Int"), body := .ofExpr (.var (.unplaced "x")) }]

/-- Its declarations. -/
def pickingDeclarations : Declarations :=
  .ofEntries (Declarations.entriesOf picking) (by decide)

/-- One use as a type in a circle of two functions is enough. -/
theorem picking_refused :
    (collect pickingDeclarations).TypeCircular pickingDeclarations ∧
      ∃ cycle, ((collect pickingDeclarations).stageGraph pickingDeclarations).schedule
        = .error cycle := by
  have h : (collect pickingDeclarations).TypeCircular pickingDeclarations :=
    ⟨"a", "pick", by decide, .single ⟨.value, by decide⟩⟩
  exact ⟨h, schedule_eq_error_of_typeCircular _ _ h⟩

end Dependencies

end Stagewise
