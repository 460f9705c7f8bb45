/-!
# Reachability in a finite graph

A graph is given by the successors of each node, and a search by the nodes not
met yet and the nodes still to visit. Meeting a node takes it off the first
list, so the search ends, cycles or not; nodes outside the first list are never
met.

Nodes that can be reached from each other belong together, and so the nodes of a
list fall into `components`.
-/

namespace Stagewise

variable {α : Type} [DecidableEq α]

/-- **The nodes of `fresh` met from `work`**, going from a node to its
successors and never through a node outside `fresh`. -/
@[specialize]
def reach (next : α → List α) (fresh work : List α) : List α :=
  match work with
  | [] => []
  | a :: work =>
    if a ∈ fresh then a :: reach next (fresh.erase a) (next a ++ work)
    else reach next fresh work
termination_by (fresh.length, work.length)
decreasing_by
  · rename_i h
    have := List.length_erase_of_mem h
    have := List.length_pos_of_mem h
    exact Prod.Lex.left _ _ (by omega)
  · exact Prod.Lex.right _ (Nat.lt_succ_self _)

/-- The nodes of a list that a node of it reaches and is reached from. -/
def component (next : α → List α) (nodes : List α) (a : α) : List α :=
  nodes.filter fun b => b ∈ reach next nodes [a] ∧ a ∈ reach next nodes [b]

/-- **The strongly connected components of a list of nodes**, each in the place
of the first of its nodes. -/
def components (next : α → List α) (nodes : List α) : List (List α) :=
  nodes.filterMap fun a =>
    if (component next nodes a).head? = some a then some (component next nodes a) else none

end Stagewise
