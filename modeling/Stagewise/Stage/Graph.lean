/-!
# Stage graphs

What has to be evaluated is a graph. Its nodes are evaluations, and a node has
dependencies under two constraints. A node comes **after** a dependency when
that has to be in a strictly earlier stage. A node **requires** a dependency
when that has to come earlier in the order, be it within the same stage.

Nodes are numbered in the order they are added, and dependencies are only
between nodes there are. They may be repeated, and a node may depend on itself.
-/

namespace Stagewise.Stage

/-- How a node depends on another. -/
inductive Constraint where
  /-- The dependency has to be in an earlier stage. -/
  | after
  /-- The dependency has to be earlier, perhaps in the same stage. -/
  | requires
  deriving DecidableEq, Repr

/-- **One evaluation.** -/
structure Node where
  /-- What messages call it. -/
  label : String
  /-- The top-level declaration it evaluates, if any. -/
  declaration : Option String := none
  /-- Whether the value is known beforehand. -/
  precomputed : Bool := false
  deriving DecidableEq, Repr

/-- An evaluation within a graph, with what it depends on, by number and in the
order added. -/
structure Vertex extends Node where
  /-- What has to be in an earlier stage. -/
  after : List Nat := []
  /-- What has to be earlier. -/
  requires : List Nat := []
  deriving DecidableEq, Repr

namespace Vertex

/-- The dependencies under one constraint. -/
def dependencies (v : Vertex) : Constraint → List Nat
  | .after => v.after
  | .requires => v.requires

/-- One more dependency. -/
def depend (v : Vertex) (c : Constraint) (dependency : Nat) : Vertex :=
  match c with
  | .after => { v with after := v.after ++ [dependency] }
  | .requires => { v with requires := v.requires ++ [dependency] }

/-- A further dependency is there, and all those that were. -/
theorem mem_dependencies_depend {v : Vertex} {b c : Constraint} {d e : Nat} :
    e ∈ (v.depend c d).dependencies b ↔ e ∈ v.dependencies b ∨ (b = c ∧ e = d) := by
  cases b <;> cases c <;> simp [depend, dependencies]

end Vertex

/-- **Evaluations and their dependencies.** -/
structure Graph where
  /-- The vertices, by number. -/
  vertices : List Vertex := []
  /-- Dependencies are vertices of the graph. -/
  closed : ∀ v ∈ vertices, ∀ c, ∀ d ∈ v.dependencies c, d < vertices.length := by
    exact fun _ h => absurd h List.not_mem_nil

/-- The graph without vertices. -/
def Graph.empty : Graph := {}

/-- What is in a list after one element was changed. -/
theorem mem_or_of_mem_modify {α : Type} {f : α → α} {a : α} {as : List α} {i : Nat}
    (h : a ∈ as.modify i f) : a ∈ as ∨ ∃ b ∈ as, a = f b := by
  induction as generalizing i with
  | nil => simp at h
  | cons b as ih =>
    cases i with
    | zero =>
      rw [List.modify_zero_cons] at h
      rcases List.mem_cons.1 h with rfl | h
      · exact .inr ⟨b, List.mem_cons_self, rfl⟩
      · exact .inl (List.mem_cons_of_mem _ h)
    | succ i =>
      rw [List.modify_succ_cons] at h
      rcases List.mem_cons.1 h with rfl | h
      · exact .inl List.mem_cons_self
      · rcases ih h with h | ⟨c, hc, rfl⟩
        · exact .inl (List.mem_cons_of_mem _ h)
        · exact .inr ⟨c, List.mem_cons_of_mem _ hc, rfl⟩

namespace Graph

/-- How many nodes there are. -/
def size (g : Graph) : Nat := g.vertices.length

/-- The numbers of all nodes. -/
def indices (g : Graph) : List Nat := List.range g.size

/-- The node of a number. -/
def node? (g : Graph) (i : Nat) : Option Node := g.vertices[i]?.map (·.toNode)

/-- Add a node, under the next number. -/
def addNode (g : Graph) (n : Node) : Graph where
  vertices := g.vertices ++ [{ n with }]
  closed v hv c d hd := by
    simp only [List.length_append, List.length_singleton]
    rcases List.mem_append.1 hv with hv | hv
    · exact Nat.lt_succ_of_lt (g.closed v hv c d hd)
    · cases List.mem_singleton.1 hv
      cases c <;> simp [Vertex.dependencies] at hd

/-- Add a dependency between two nodes of the graph; there are no others. -/
def connect (g : Graph) (c : Constraint) (node dependency : Nat) : Graph :=
  if h : node < g.vertices.length ∧ dependency < g.vertices.length then
    { vertices := g.vertices.modify node (·.depend c dependency)
      closed := fun v hv b d hd => by
        rw [List.length_modify]
        rcases mem_or_of_mem_modify hv with hv | ⟨w, hw, rfl⟩
        · exact g.closed v hv b d hd
        · rcases Vertex.mem_dependencies_depend.1 hd with hd | ⟨_, rfl⟩
          · exact g.closed w hw b d hd
          · exact h.2 }
  else g

/-- The dependencies of a node under one constraint, as often as they were
added. -/
def dependencies (g : Graph) (c : Constraint) (node : Nat) : List Nat :=
  match g.vertices[node]? with
  | some v => v.dependencies c
  | none => []

/-- The label of a node. -/
def label (g : Graph) (i : Nat) : String := (g.vertices[i]?.map (·.label)).getD ""

/-- The labels of several nodes. -/
def labels (g : Graph) (is : List Nat) : List String := is.map g.label

/-- Whether every dependency of a node under a constraint is in a list. -/
def ready (g : Graph) (c : Constraint) (placed : List Nat) (node : Nat) : Bool :=
  (g.dependencies c node).all (· ∈ placed)

end Graph

end Stagewise.Stage
