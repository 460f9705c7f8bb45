import Stagewise.Failure.Fatal
import Stagewise.Reach
import Stagewise.Stage.Graph

/-!
# Schedules

A schedule puts the nodes of a stage graph into stages, and the nodes of each
stage into an order. `Graph.schedule` builds it stage by stage. Each round
queues every node that comes after placed nodes only, sees to it that queued
nodes require nothing beyond what is placed or queued, and then orders the queue
so that a node follows what it requires.

Each of the three steps can fail, and each failure is a kind of `Cycle`. If
nothing can be queued, the nodes that are left wait for each other. If a queued
node requires one that is not even queued, that one is to come after it. If the
queue cannot be ordered, its nodes require each other.

The queue is ordered in passes. A pass goes through the queue and takes out
every node whose requirements are visible, and what it takes out is visible at
once.
-/

namespace Stagewise.Stage

/-- **Stages in order**, each with its nodes in order, by number. -/
structure Schedule where
  /-- The stages. -/
  stages : List (List Nat)
  deriving DecidableEq, Repr

/-- All nodes, in the order they are evaluated. -/
def Schedule.order (s : Schedule) : List Nat := s.stages.flatten

namespace Graph

variable (g : Graph)

/-! ## One stage -/

/-- **One pass over a queue**: the nodes taken out, and those that stay. -/
def pass (visible : List Nat) : List Nat → List Nat × List Nat
  | [] => ([], [])
  | n :: queue =>
    if g.ready .requires visible n then
      let (taken, left) := pass (n :: visible) queue
      (n :: taken, left)
    else
      let (taken, left) := pass visible queue
      (taken, n :: left)

theorem length_pass (visible queue : List Nat) :
    (g.pass visible queue).1.length + (g.pass visible queue).2.length = queue.length := by
  induction queue generalizing visible with
  | nil => rfl
  | cons n queue ih =>
    unfold pass
    split
    · have := ih (n :: visible)
      simp only [List.length_cons]
      omega
    · have := ih visible
      simp only [List.length_cons]
      omega

/-- **Order a queue by passes**; if a pass takes nothing out, what is left of
the queue. -/
def arrange (visible queue : List Nat) : Except (List Nat) (List Nat) :=
  if queue.isEmpty then .ok []
  else if _h : (g.pass visible queue).1 = [] then .error queue
  else
    (fun rest => (g.pass visible queue).1 ++ rest)
      <$> arrange (visible ++ (g.pass visible queue).1) (g.pass visible queue).2
termination_by queue.length
decreasing_by
  have := g.length_pass visible queue
  have := List.length_pos_iff.2 _h
  omega

/-! ## All stages -/

/-- The dependencies of a node among some nodes. -/
def within (c : Constraint) (nodes : List Nat) (node : Nat) : List Nat :=
  (g.dependencies c node).filter (· ∈ nodes)

/-- Whether there is a cycle through a component: it has several nodes, or one
that depends on itself. -/
def isCyclic (c : Constraint) (nodes component : List Nat) : Bool :=
  1 < component.length || component.head?.any fun n => n ∈ g.within c nodes n

/-- **The nodes of a list that lie on a cycle within it**, by the components of
the list, or all of them if none does. They are in order. -/
def cycleMembers (c : Constraint) (nodes : List Nat) (components : List (List Nat)) : List Nat :=
  let members := (components.filter (g.isCyclic c nodes)).flatten
  (if members.isEmpty then nodes else members).mergeSort

/-- What a failure says of nodes that cannot be placed: the labels of those on a
cycle. -/
def stuckLabels (c : Constraint) (nodes : List Nat) : List String :=
  g.labels (g.cycleMembers c nodes (components (g.within c nodes) nodes))

/-- The requirements of a node that are not in a list, in order. -/
def missing (accessible : List Nat) (node : Nat) : List Nat :=
  let lacking := (g.dependencies .requires node).filter (· ∉ accessible)
  if lacking.isEmpty then [] else g.indices.filter (· ∈ lacking)

/-- The first node of a queue that requires something out of reach. -/
def unreachable? (accessible : List Nat) (queue : List Nat) : Option Cycle :=
  queue.findSome? fun n =>
    let missing := g.missing accessible n
    if missing.isEmpty then none else some (.mixed (g.label n) (g.labels missing))

/-- The nodes of `pending` that come after placed nodes only. -/
def queued (placed pending : List Nat) : List Nat := pending.filter (g.ready .after placed)

/-- The nodes of `pending` that do not. -/
def waiting (placed pending : List Nat) : List Nat :=
  pending.filter fun n => ¬g.ready .after placed n

theorem length_waiting_lt {placed pending : List Nat} (h : g.queued placed pending ≠ []) :
    (g.waiting placed pending).length < pending.length := by
  obtain ⟨n, hn⟩ := List.exists_mem_of_ne_nil _ h
  obtain ⟨hm, hr⟩ := List.mem_filter.1 hn
  exact List.length_filter_lt_length_iff_exists.2 ⟨n, hm, by simpa using hr⟩

/-- **The stages of the nodes still pending**, once `placed` are placed. -/
def rounds (placed pending : List Nat) : Except Cycle (List (List Nat)) :=
  if pending.isEmpty then .ok []
  else if _h : g.queued placed pending = [] then
    .error (.after (g.stuckLabels .after pending))
  else
    match g.unreachable? (placed ++ g.queued placed pending) (g.queued placed pending) with
    | some cycle => .error cycle
    | none =>
      match g.arrange placed (g.queued placed pending) with
      | .error stuck => .error (.requires (g.stuckLabels .requires stuck))
      | .ok stage => (stage :: ·) <$> rounds (placed ++ stage) (g.waiting placed pending)
termination_by pending.length
decreasing_by exact g.length_waiting_lt _h

/-- **A schedule of the graph**, or why there is none. -/
def schedule : Except Cycle Schedule := Schedule.mk <$> g.rounds [] g.indices

end Graph

end Stagewise.Stage
