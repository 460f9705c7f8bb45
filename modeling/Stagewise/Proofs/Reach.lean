import Mathlib.Data.Fintype.Card
import Mathlib.Data.Set.Finite.Basic
import Mathlib.Logic.Relation
import Stagewise.Reach

/-!
# Reachability and cycles

A search through a finite graph meets exactly the nodes there is a path to. The
paths in question stay within the nodes that are fresh when the search begins,
and the search makes its own life harder as it goes on, since every node it
meets is fresh no more. That nothing is lost by this is the content of
`mem_reach_iff`: a path that comes back to a node can be cut there, and the rest
of it starts from a successor of that node, which is then among the nodes to
visit.

Nodes that reach each other are on one cycle, and make up the strongly connected
components of the graph (`Components`). How these are listed is left open, and
it is shown that the search for them lists them (`components_spec`). The cycles
within some nodes are the cycles of the whole graph through them, where these do
not lead out (`transGen_stepIn`).

The other fact here is about graphs in which nobody can stop. If every node of a
finite collection has a successor in the collection, then one of them is on a
cycle.
-/

namespace Stagewise

open Relation

variable {α : Type}

/-- A step to a successor among `nodes`. -/
def StepIn (next : α → List α) (nodes : List α) (a b : α) : Prop := b ∈ next a ∧ b ∈ nodes

/-- **There is a path within `nodes`** from one of `work`. -/
def ReachableIn (next : α → List α) (nodes work : List α) (a : α) : Prop :=
  ∃ w ∈ work, w ∈ nodes ∧ ReflTransGen (StepIn next nodes) w a

section Search

variable [DecidableEq α] {next : α → List α} {nodes work : List α} {a b : α}

/-- With `a` met and its successors to visit, what can be reached could be
reached before. -/
theorem ReachableIn.of_erase (ha : a ∈ nodes)
    (h : ReachableIn next (nodes.erase a) (next a ++ work) b) :
    ReachableIn next nodes (a :: work) b := by
  obtain ⟨w, hw, hwn, hp⟩ := h
  have hpath : ReflTransGen (StepIn next nodes) w b :=
    ReflTransGen.mono (fun _ _ hs => ⟨hs.1, List.mem_of_mem_erase hs.2⟩) _ _ hp
  have hwn := List.mem_of_mem_erase hwn
  obtain hw | hw := List.mem_append.mp hw
  · exact ⟨a, List.mem_cons_self, ha, .head ⟨hw, hwn⟩ hpath⟩
  · exact ⟨w, List.mem_cons_of_mem _ hw, hwn, hpath⟩

/-- **Meeting a node loses no other**: what could be reached is `a` itself, or
can still be reached without going through `a`. -/
theorem ReachableIn.erase (h : ReachableIn next nodes (a :: work) b) (hb : b ≠ a) :
    ReachableIn next (nodes.erase a) (next a ++ work) b := by
  obtain ⟨w, hw, hwn, hp⟩ := h
  induction hp with
  | refl =>
    have hw := (List.mem_cons.mp hw).resolve_left hb
    exact ⟨w, List.mem_append_right _ hw, (List.mem_erase_of_ne hb).mpr hwn, .refl⟩
  | @tail c d _ hs ih =>
    have hd := (List.mem_erase_of_ne hb).mpr hs.2
    by_cases hc : c = a
    · -- the path is cut at its last visit of `a`
      subst hc
      exact ⟨d, List.mem_append_left _ hs.1, hd, .refl⟩
    · obtain ⟨v, hv, hvn, hq⟩ := ih hc
      exact ⟨v, hv, hvn, hq.tail ⟨hs.1, hd⟩⟩

/-- **The search meets exactly what can be reached.**

The induction is that of the loop. When a node is met it is taken from the fresh
ones, and its successors come to the work list. By `ReachableIn.erase` the other
nodes that could be reached still can be. -/
theorem mem_reach_iff : b ∈ reach next nodes work ↔ ReachableIn next nodes work b := by
  fun_induction reach next nodes work with
  | case1 nodes =>
    refine ⟨fun h => absurd h List.not_mem_nil, ?_⟩
    rintro ⟨w, hw, -⟩
    exact absurd hw List.not_mem_nil
  | case2 nodes a work ha ih =>
    rw [List.mem_cons, ih]
    constructor
    · rintro (rfl | h)
      · exact ⟨b, List.mem_cons_self, ha, .refl⟩
      · exact h.of_erase ha
    · intro h
      by_cases hb : b = a
      · exact .inl hb
      · exact .inr (h.erase hb)
  | case3 nodes a work ha ih =>
    rw [ih]
    constructor
    · rintro ⟨w, hw, h⟩
      exact ⟨w, List.mem_cons_of_mem _ hw, h⟩
    · rintro ⟨w, hw, hwn, hp⟩
      obtain rfl | hw := List.mem_cons.mp hw
      · exact absurd hwn ha
      · exact ⟨w, hw, hwn, hp⟩

end Search

/-!
## Components

Two nodes are in one component if each can be reached from the other. This is an
equivalence, and the component of a node is found by two searches. Each
component is listed where its first node stands, so that none is listed twice.
-/

/-- **Nodes are on one cycle** within `nodes`, or they are the same. -/
def Mutual (next : α → List α) (nodes : List α) (a b : α) : Prop :=
  ReflTransGen (StepIn next nodes) a b ∧ ReflTransGen (StepIn next nodes) b a

namespace Mutual

variable {next : α → List α} {nodes : List α} {a b c : α}

/-- It does not matter which of the two is first. -/
theorem symm (h : Mutual next nodes a b) : Mutual next nodes b a := ⟨h.2, h.1⟩

/-- Three nodes are on one cycle if they are two by two. -/
theorem trans (h : Mutual next nodes a b) (h' : Mutual next nodes b c) : Mutual next nodes a c :=
  ⟨h.1.trans h'.1, h'.2.trans h.2⟩

/-- Two nodes that reach each other are on a cycle. -/
theorem transGen (h : Mutual next nodes a b) (hne : b ≠ a) : TransGen (StepIn next nodes) a a := by
  obtain rfl | hab := reflTransGen_iff_eq_or_transGen.mp h.1
  · exact absurd rfl hne
  · exact hab.trans_left h.2

end Mutual

/-- **Lists are the strongly connected components of some nodes**: all nodes are
in them, each once, and with a node its list has those on one cycle with it. -/
structure Components (next : α → List α) (nodes : List α) (cs : List (List α)) : Prop where
  perm : cs.flatten.Perm nodes
  mem_iff : ∀ c ∈ cs, ∀ a ∈ c, ∀ b, b ∈ c ↔ b ∈ nodes ∧ Mutual next nodes a b

section Components

variable {next : α → List α} {nodes c : List α} {cs : List (List α)} {a b : α}

namespace Components

variable (h : Components next nodes cs)
include h

/-- Every node is in some component. -/
theorem exists_mem (ha : a ∈ nodes) : ∃ c ∈ cs, a ∈ c :=
  List.mem_flatten.mp (h.perm.mem_iff.mpr ha)

/-- Components are made of nodes. -/
theorem mem_nodes (hc : c ∈ cs) (ha : a ∈ c) : a ∈ nodes :=
  h.perm.mem_iff.mp (List.mem_flatten.mpr ⟨c, hc, ha⟩)

/-- A component has no node twice. -/
theorem nodup_of_mem (hnodup : nodes.Nodup) (hc : c ∈ cs) : c.Nodup :=
  (List.nodup_flatten.mp (h.perm.nodup_iff.mpr hnodup)).1 c hc

/-- A component with two nodes in it is all on one cycle. -/
theorem transGen_of_length (hnodup : nodes.Nodup) (hc : c ∈ cs) (ha : a ∈ c)
    (hlength : 1 < c.length) : TransGen (StepIn next nodes) a a := by
  obtain ⟨b, hb, hne⟩ : ∃ b ∈ c, b ≠ a := by
    by_contra hall
    push Not at hall
    have hrep := List.eq_replicate_of_mem hall
    have hone := List.nodup_replicate.mp (hrep ▸ h.nodup_of_mem hnodup hc)
    omega
  exact ((h.mem_iff c hc a ha b).mp hb).2.transGen hne

/-- The component of a node on a cycle has two nodes, or the node is next to
itself. -/
theorem length_or_mem_next (hc : c ∈ cs) (ha : a ∈ c) (hcycle : TransGen (StepIn next nodes) a a) :
    1 < c.length ∨ c = [a] ∧ a ∈ next a := by
  obtain ⟨d, had, hda⟩ := TransGen.head'_iff.mp hcycle
  have hd : d ∈ c := (h.mem_iff c hc a ha d).mpr ⟨had.2, .single had, hda⟩
  cases c with
  | nil => cases ha
  | cons e rest =>
    cases rest with
    | nil =>
      obtain rfl := List.mem_singleton.mp ha
      obtain rfl := List.mem_singleton.mp hd
      exact .inr ⟨rfl, had.1⟩
    | cons e' rest => exact .inl (by simp)

end Components

variable [DecidableEq α]

/-- What the two searches have in common is what is on one cycle with the
node. -/
theorem mem_component_iff (ha : a ∈ nodes) :
    b ∈ component next nodes a ↔ b ∈ nodes ∧ Mutual next nodes a b := by
  have hreach {a b : α} (ha : a ∈ nodes) :
      b ∈ reach next nodes [a] ↔ ReflTransGen (StepIn next nodes) a b := by
    rw [mem_reach_iff]
    constructor
    · rintro ⟨w, hw, -, hpath⟩
      exact List.mem_singleton.mp hw ▸ hpath
    · exact fun hpath => ⟨a, List.mem_singleton_self a, ha, hpath⟩
  rw [component, List.mem_filter, decide_eq_true_eq]
  exact and_congr_right fun hb => and_congr (hreach ha) (hreach hb)

/-- Nodes on one cycle have the same component. -/
theorem component_congr (ha : a ∈ nodes) (hb : b ∈ nodes) (h : Mutual next nodes a b) :
    component next nodes a = component next nodes b := by
  refine List.filter_congr fun e he => ?_
  have hiff : e ∈ component next nodes a ↔ e ∈ component next nodes b := by
    rw [mem_component_iff ha, mem_component_iff hb]
    exact and_congr_right fun _ => ⟨h.symm.trans, h.trans⟩
  rw [component, component, List.mem_filter, List.mem_filter, and_iff_right he,
    and_iff_right he] at hiff
  exact Bool.eq_iff_iff.mpr hiff

/-- A component is listed for its first node. -/
theorem mem_components_iff :
    c ∈ components next nodes ↔ ∃ a ∈ nodes, c.head? = some a ∧ c = component next nodes a := by
  simp only [components, List.mem_filterMap, Option.ite_none_right_eq_some, Option.some.injEq]
  constructor
  · rintro ⟨a, ha, hhead, rfl⟩
    exact ⟨a, ha, hhead, rfl⟩
  · rintro ⟨a, ha, hhead, rfl⟩
    exact ⟨a, ha, hhead, rfl⟩

/-- **The search for components finds them.**

Components with a node in common are equal, because nodes on one cycle have the
same component. They would be listed for the same first node, so no two of them
are in the list. And every node is in its own. -/
theorem components_spec (hnodup : nodes.Nodup) : Components next nodes (components next nodes) := by
  have hmem : ∀ c ∈ components next nodes, ∀ a ∈ c, a ∈ nodes ∧ c = component next nodes a := by
    intro c hc a ha
    obtain ⟨e, he, -, rfl⟩ := mem_components_iff.mp hc
    obtain ⟨ha, hmutual⟩ := (mem_component_iff he).mp ha
    exact ⟨ha, component_congr he ha hmutual⟩
  refine ⟨(List.perm_ext_iff_of_nodup ?_ hnodup).mpr fun a => ⟨fun ha => ?_, fun ha => ?_⟩, ?_⟩
  · refine List.nodup_flatten.mpr ⟨fun c hc => ?_, ?_⟩
    · obtain ⟨e, -, -, rfl⟩ := mem_components_iff.mp hc
      exact hnodup.filter _
    · -- two components with a node in common are the same, and stand for the same first node
      refine List.pairwise_filterMap.mpr (hnodup.imp fun {a a'} hne c hc c' hc' e he he' => ?_)
      obtain ⟨hhead, hc⟩ := Option.ite_none_right_eq_some.mp hc
      obtain ⟨hhead', hc'⟩ := Option.ite_none_right_eq_some.mp hc'
      obtain rfl := Option.some.inj hc
      obtain rfl := Option.some.inj hc'
      have ha := List.mem_of_mem_filter (List.mem_of_mem_head? hhead)
      have ha' := List.mem_of_mem_filter (List.mem_of_mem_head? hhead')
      have hmutual := ((mem_component_iff ha).mp he).2.trans ((mem_component_iff ha').mp he').2.symm
      rw [component_congr ha ha' hmutual, hhead'] at hhead
      exact hne (Option.some.inj hhead).symm
  · obtain ⟨c, hc, hac⟩ := List.mem_flatten.mp ha
    exact (hmem c hc a hac).1
  · have hself : a ∈ component next nodes a := (mem_component_iff ha).mpr ⟨ha, .refl, .refl⟩
    obtain ⟨e, hhead⟩ := Option.isSome_iff_exists.mp
      (List.isSome_head?.mpr (List.ne_nil_of_mem hself))
    obtain ⟨he, hmutual⟩ := (mem_component_iff ha).mp (List.mem_of_mem_head? hhead)
    refine List.mem_flatten.mpr ⟨_, mem_components_iff.mpr ⟨e, he, hhead, ?_⟩, hself⟩
    exact component_congr ha he hmutual
  · intro c hc a ha b
    obtain ⟨hnode, rfl⟩ := hmem c hc a ha
    exact mem_component_iff hnode

end Components

/-- **A cycle stays within `nodes`** if a step along it never leads out of
them. -/
theorem transGen_stepIn {next : α → List α} {nodes : List α} {a : α} (ha : a ∈ nodes)
    (hin : ∀ b ∈ nodes, ∀ d ∈ next b, ReflTransGen (fun b d => d ∈ next b) d b → d ∈ nodes)
    (h : TransGen (fun b d => d ∈ next b) a a) : TransGen (StepIn next nodes) a a := by
  -- wherever one comes on the way back to `a`, it is by a path within `nodes`
  have hway : ∀ b, ReflTransGen (fun b d => d ∈ next b) a b →
      ReflTransGen (fun b d => d ∈ next b) b a →
      b ∈ nodes ∧ ReflTransGen (StepIn next nodes) a b := by
    intro b hab
    induction hab with
    | refl => exact fun _ => ⟨ha, .refl⟩
    | @tail b d hab hbd ih =>
      intro hda
      obtain ⟨hb, hpath⟩ := ih (.head hbd hda)
      have hd : d ∈ nodes := hin b hb d hbd (hda.trans hab)
      exact ⟨hd, hpath.tail ⟨hbd, hd⟩⟩
  obtain ⟨b, hab, hba⟩ := TransGen.tail'_iff.mp h
  exact .tail' (hway b hab (.single hba)).2 ⟨hba, ha⟩

/-- **Where nobody can stop there is a cycle.** -/
theorem exists_cycle_of_forall_exists {r : α → α → Prop} {nodes : List α} (hne : nodes ≠ [])
    (h : ∀ a ∈ nodes, ∃ b ∈ nodes, r a b) : ∃ a ∈ nodes, TransGen r a a := by
  by_contra hno
  push Not at hno
  -- without a cycle, going on along `r` is well-founded on the nodes, and yet it never ends
  let further (b a : { a // a ∈ nodes }) : Prop := TransGen r a.1 b.1
  have : IsTrans _ further := ⟨fun _ _ _ hcb hba => TransGen.trans hba hcb⟩
  have : Std.Irrefl further := ⟨fun a ha => hno a.1 a.2 ha⟩
  have : Finite { a // a ∈ nodes } := nodes.finite_toSet
  have hwf : WellFounded further := Finite.wellFounded_of_trans_of_irrefl further
  obtain ⟨a, ha⟩ := List.exists_mem_of_ne_nil _ hne
  refine hwf.induction (C := fun _ => False) ⟨a, ha⟩ (fun a ih => ?_)
  obtain ⟨b, hb, hr⟩ := h a.1 a.2
  exact ih ⟨b, hb⟩ (TransGen.single hr)

/-- A number that drops along every step excludes cycles. -/
theorem not_transGen_self_of_lt {r : α → α → Prop} (rank : α → Nat)
    (h : ∀ a b, r a b → rank b < rank a) (a : α) : ¬TransGen r a a := by
  intro ha
  have hdrop : ∀ b, TransGen r a b → rank b < rank a := by
    intro b hb
    induction hb with
    | single hs => exact h _ _ hs
    | tail _ hs ih => exact (h _ _ hs).trans ih
  exact lt_irrefl _ (hdrop a ha)

end Stagewise
