import Mathlib.Algebra.Order.BigOperators.Group.List
import Stagewise.Proofs.Stage.Depth

/-!
# What becomes of a graph, level by level

The nodes of one depth are a **level**, and round `k` of a schedule deals with
level `k` and no other. Two things can be wrong with a level. It is **mixed** if
one of its nodes requires a deeper one, and **circular** if its nodes require
each other around. A round finds out about the first before the second, and it
is over with the first level that has something wrong with it. Whatever there
may be deeper down is never looked at, and be it a cycle of nodes that come
after each other.

Such a cycle is met only when all levels are in order. The nodes that come after
it, directly or not, have no depth (`Graph.depth_eq_top_iff`), and when the
nodes of finite depth are placed they are left over. So the outcome of
`Graph.schedule` can be told from the depths alone, whichever of its failures it
is (`Graph.schedule_eq_of_levels`).
-/

namespace Stagewise.Stage.Graph

open Relation

variable {g : Graph} {k n : Nat}

/-!
## Nodes without a depth

There are finitely many nodes, so a chain that is long enough meets one of them
twice. Below a node without a depth there is therefore a cycle, and below a
cycle there is no end.
-/

instance decidableHasChain (g : Graph) : (k n : Nat) → Decidable (g.HasChain k n)
  | 0, _ => .isTrue trivial
  | k + 1, n =>
    have := decidableHasChain g k
    inferInstanceAs (Decidable (∃ d ∈ g.dependencies .after n, g.HasChain k d))

/-- A node comes after another. -/
def ComesAfter (g : Graph) (n d : Nat) : Prop := d ∈ g.dependencies .after n

instance (g : Graph) (n d : Nat) : Decidable (g.ComesAfter n d) :=
  inferInstanceAs (Decidable (d ∈ g.dependencies .after n))

/-- A depth is infinite if there are chains of all lengths. -/
theorem depth_eq_top_iff_hasChain : g.depth n = ⊤ ↔ ∀ k, g.HasChain k n := by
  rw [ENat.eq_top_iff_forall_ge]
  exact forall_congr' fun k => le_depth_iff

/-- **A node without a depth comes after another one**: what it comes after is
finite, and chains below it are not. -/
theorem exists_comesAfter_of_depth_eq_top (h : g.depth n = ⊤) :
    ∃ d, g.ComesAfter n d ∧ g.depth d = ⊤ := by
  by_contra hno
  push Not at hno
  have hshort : ∀ d ∈ g.dependencies .after n, ∃ k, ¬g.HasChain k d := by
    intro d hd
    have hd := hno d hd
    rwa [ne_eq, depth_eq_top_iff_hasChain, not_forall] at hd
  choose! bound hbound using hshort
  -- no chain below `n` is longer than the longest of these
  obtain ⟨d, hd, hchain⟩ := depth_eq_top_iff_hasChain.mp h
    (((g.dependencies .after n).map bound).sum + 1)
  have hle : bound d ≤ ((g.dependencies .after n).map bound).sum :=
    List.le_sum_of_mem (List.mem_map_of_mem hd)
  exact hbound d hd (hchain.of_le hle)

/-- There are chains of any length below a node from which a cycle is
reached. -/
theorem hasChain_of_transGen {m : Nat} (hm : TransGen g.ComesAfter m m)
    (h : TransGen g.ComesAfter n m) : g.HasChain k n := by
  induction k generalizing n with
  | zero => trivial
  | succ k ih =>
    obtain ⟨d, hd, hrest⟩ := TransGen.head'_iff.mp h
    obtain rfl | hrest := reflTransGen_iff_eq_or_transGen.mp hrest
    · exact ⟨_, hd, ih hm⟩
    · exact ⟨d, hd, ih hrest⟩

/-- **A node has no depth** if a cycle is reached from it, and only then. -/
theorem depth_eq_top_iff :
    g.depth n = ⊤ ↔ ∃ m, ReflTransGen g.ComesAfter n m ∧ TransGen g.ComesAfter m m := by
  classical
  constructor
  · intro h
    -- from node to node without a depth, starting at `n`, nobody can stop
    let endless := (n :: g.indices).filter fun m => ReflTransGen g.ComesAfter n m ∧ g.depth m = ⊤
    have hself : n ∈ endless :=
      List.mem_filter.mpr ⟨List.mem_cons_self, decide_eq_true ⟨.refl, h⟩⟩
    have hstep : ∀ m ∈ endless, ∃ d ∈ endless, g.ComesAfter m d := by
      intro m hm
      obtain ⟨hreach, htop⟩ := of_decide_eq_true (List.mem_filter.mp hm).2
      obtain ⟨d, hd, hdtop⟩ := exists_comesAfter_of_depth_eq_top htop
      have hsize := mem_indices.mpr (lt_size_of_mem_dependencies hd).2
      exact ⟨d, List.mem_filter.mpr ⟨List.mem_cons_of_mem _ hsize,
        decide_eq_true ⟨hreach.tail hd, hdtop⟩⟩, hd⟩
    obtain ⟨m, hm, hcycle⟩ := exists_cycle_of_forall_exists (List.ne_nil_of_mem hself) hstep
    exact ⟨m, (of_decide_eq_true (List.mem_filter.mp hm).2).1, hcycle⟩
  · rintro ⟨m, hreach, hcycle⟩
    refine depth_eq_top_iff_hasChain.mpr fun k => ?_
    obtain rfl | hreach := reflTransGen_iff_eq_or_transGen.mp hreach
    · exact hasChain_of_transGen hcycle hcycle
    · exact hasChain_of_transGen hcycle hreach

/-!
## Levels

What is wrong with a level can be told from depths and requirements. How a round
notices is another matter: it looks for something that is not at hand, and it
tries to put the queue in order.
-/

/-- A node of a level requires a deeper one. -/
def RequiresDeeper (g : Graph) (k n : Nat) : Prop :=
  g.depth n = k ∧ ∃ d ∈ g.dependencies .requires n, k < g.depth d

/-- **A level is mixed**: one of its nodes requires a deeper one. -/
def Mixed (g : Graph) (k : Nat) : Prop := ∃ n, g.RequiresDeeper k n

/-- A node of a level requires another one of the level. -/
def RequiresLevel (g : Graph) (k n d : Nat) : Prop :=
  d ∈ g.dependencies .requires n ∧ g.depth n = k ∧ g.depth d = k

/-- **A level is circular**: there is a cycle of requirements between its
nodes. -/
def Circular (g : Graph) (k : Nat) : Prop := ∃ n, TransGen (g.RequiresLevel k) n n

/-- There is nothing wrong with a level. -/
def InShape (g : Graph) (k : Nat) : Prop := ¬g.Mixed k ∧ ¬g.Circular k

/-- A level without nodes is in shape. -/
theorem inShape_of_forall_ne (h : ∀ n < g.size, g.depth n ≠ k) : g.InShape k := by
  refine ⟨fun ⟨n, hn, d, hd, _⟩ => h n (lt_size_of_mem_dependencies hd).1 hn, fun ⟨n, hn⟩ => ?_⟩
  obtain ⟨d, ⟨hd, hdepth, -⟩, -⟩ := TransGen.head'_iff.mp hn
  exact h n (lt_size_of_mem_dependencies hd).1 hdepth

namespace AtRound

variable {placed pending : List Nat}

/-- What a round has not at hand is deeper than the level it deals with. -/
theorem lt_depth_iff (h : g.AtRound k placed pending) {d : Nat} (hd : d < g.size) :
    k < g.depth d ↔ d ∉ placed ++ g.queued placed pending := by
  have hlt : (k : ℕ∞) < g.depth d ↔ g.HasChain (k + 1) d := by
    rw [← le_depth_iff, Nat.cast_succ, ENat.add_one_le_iff (ENat.natCast_ne_top k)]
  rw [hlt, List.mem_append, not_or, h.mem_placed, h.mem_queued_iff, depth_eq_iff]
  constructor
  · exact fun hc => ⟨fun hp => hp.2 hc.of_succ, fun hq => hq.2.2 hc⟩
  · intro hno
    by_contra hc
    by_cases hk : g.HasChain k d
    · exact hno.2 ⟨hd, hk, hc⟩
    · exact hno.1 ⟨hd, hk⟩

/-- A level is not mixed if all that its nodes require is at hand, and only
then. -/
theorem not_mixed_iff (h : g.AtRound k placed pending) :
    ¬g.Mixed k ↔
      g.unreachable? (placed ++ g.queued placed pending) (g.queued placed pending) = none := by
  rw [unreachable?_eq_none_iff, Mixed, not_exists]
  constructor
  · intro hmixed n hn d hd
    by_contra hacc
    have hdeeper := (h.lt_depth_iff (lt_size_of_mem_dependencies hd).2).mpr hacc
    exact hmixed n ⟨(h.mem_queued_iff.mp hn).2, d, hd, hdeeper⟩
  · rintro hacc n ⟨hdepth, d, hd, hdeeper⟩
    have hsize := lt_size_of_mem_dependencies hd
    exact (h.lt_depth_iff hsize.2).mp hdeeper (hacc n (h.mem_queued_iff.mpr ⟨hsize.1, hdepth⟩) d hd)

/-- A level that was put in order is not circular: requirements go down in the
order. -/
theorem not_circular (h : g.AtRound k placed pending) {stage : List Nat}
    (hstage : g.arrange placed (g.queued placed pending) = .ok stage) : ¬g.Circular k := by
  rintro ⟨n, hn⟩
  refine not_transGen_self_of_lt stage.idxOf (fun m d ⟨hd, hm, hdepth⟩ => ?_) n hn
  have hsize := lt_size_of_mem_dependencies hd
  have hmem : m ∈ stage := (Runs.mem_stage hstage).mpr (h.mem_queued_iff.mpr ⟨hsize.1, hm⟩)
  refine (arrange_ok hstage).2.idxOf_lt hmem hd fun hp => ?_
  exact ((h.mem_placed d).mp hp).2 (depth_eq_iff.mp hdepth).1

/-- A level that is not mixed and cannot be put in order is circular: what is
stuck requires something that is stuck. -/
theorem circular (h : g.AtRound k placed pending) {stuck : List Nat}
    (hreach : g.unreachable? (placed ++ g.queued placed pending) (g.queued placed pending) = none)
    (hstuck : g.arrange placed (g.queued placed pending) = .error stuck) : g.Circular k := by
  obtain ⟨hne, hsub, hreq⟩ := arrange_error hstuck
  have hdepth : ∀ n ∈ stuck, g.depth n = k := fun n hn => (h.mem_queued_iff.mp (hsub n hn)).2
  have hstep : ∀ n ∈ stuck, ∃ d ∈ stuck, g.RequiresLevel k n d := by
    intro n hn
    obtain ⟨d, hd, hv, hin⟩ := hreq n hn
    have hacc := unreachable?_eq_none_iff.mp hreach n (hsub n hn) d hd
    have hd' := hin ((List.mem_append.mp hacc).resolve_left hv)
    exact ⟨d, hd', hd, hdepth n hn, hdepth d hd'⟩
  obtain ⟨n, -, hn⟩ := exists_cycle_of_forall_exists hne hstep
  exact ⟨n, hn⟩

/-- Where nothing can be queued, the nodes that are left have no depth. -/
theorem depth_eq_top (h : g.AtRound k placed pending) (hnone : g.queued placed pending = [])
    (hn : n ∈ pending) : g.depth n = ⊤ := by
  refine depth_eq_top_iff_hasChain.mpr fun l => ?_
  induction l generalizing n with
  | zero => trivial
  | succ l ih =>
    have hq : n ∉ g.queued placed pending := hnone ▸ List.not_mem_nil
    obtain ⟨-, d, hd, hp⟩ := mem_waiting.mp (mem_waiting_of_not_mem_queued hn hq)
    have hpending := (h.mem_placed_or_pending (lt_size_of_mem_dependencies hd).2).resolve_left hp
    exact ⟨d, hd, ih hpending⟩

end AtRound

/-!
## Rounds by level

The rounds go through the levels in order, and so a run comes down to what they
find there. By induction on the run: each round finds its level in shape and
goes on, or it is the last.
-/

/-- **What is named of a mixed level**: its first node that requires a deeper
one, and all that it requires and is deeper, in order. -/
structure Names (g : Graph) (k n : Nat) (missing : List Nat) : Prop where
  deeper : g.RequiresDeeper k n
  first : ∀ m, g.RequiresDeeper k m → n ≤ m
  sorted : missing.Pairwise (· < ·)
  mem_missing : ∀ d, d ∈ missing ↔ d ∈ g.dependencies .requires n ∧ k < g.depth d

/-- What is out of reach is named in order. -/
theorem sorted_missing (accessible : List Nat) (n : Nat) :
    (g.missing accessible n).Pairwise (· < ·) := by
  simp only [missing]
  split
  · exact .nil
  · exact List.pairwise_lt_range.filter _

/-- The first node that requires something out of reach is the first of its
level that requires something deeper. -/
theorem AtRound.exists_names {placed pending : List Nat} {cycle : Cycle}
    (h : g.AtRound k placed pending) (hsorted : pending.Pairwise (· < ·))
    (hcycle : g.unreachable? (placed ++ g.queued placed pending) (g.queued placed pending)
      = some cycle) :
    ∃ n missing, g.Names k n missing ∧ cycle = .mixed (g.label n) (g.labels missing) := by
  have hmem : ∀ n d, d ∈ g.missing (placed ++ g.queued placed pending) n ↔
      d ∈ g.dependencies .requires n ∧ k < g.depth d := by
    intro n d
    rw [Graph.mem_missing]
    exact and_congr_right fun hd => (h.lt_depth_iff (lt_size_of_mem_dependencies hd).2).symm
  obtain ⟨before, n, after, hqueue, hfound, hnone⟩ := List.findSome?_eq_some_iff.mp hcycle
  have hqueued : ∀ m, m ∈ before ∨ m = n ∨ m ∈ after ↔ m < g.size ∧ g.depth m = k := by
    intro m
    rw [← h.mem_queued_iff, hqueue, List.mem_append, List.mem_cons]
  refine ⟨n, g.missing (placed ++ g.queued placed pending) n, ⟨?_, ?_, sorted_missing _ n, hmem n⟩,
    ?_⟩
  · obtain ⟨d, hd⟩ : ∃ d, d ∈ g.missing (placed ++ g.queued placed pending) n := by
      refine List.exists_mem_of_ne_nil _ fun hnil => ?_
      simp [hnil] at hfound
    exact ⟨((hqueued n).mp (.inr (.inl rfl))).2, d, (hmem n d).mp hd⟩
  · rintro m ⟨hdepth, d, hd, hdeeper⟩
    have hsize := (lt_size_of_mem_dependencies hd).1
    obtain hm | rfl | hm := (hqueued m).mpr ⟨hsize, hdepth⟩
    · -- what comes before the first requires nothing deeper
      have hlacks := hnone m hm
      rw [ite_eq_left_iff] at hlacks
      have hnil : g.missing (placed ++ g.queued placed pending) m = [] := by simpa using hlacks
      exact absurd (hnil ▸ (hmem m d).mpr ⟨hd, hdeeper⟩) List.not_mem_nil
    · exact le_rfl
    · have hlt : (g.queued placed pending).Pairwise (· < ·) := hsorted.filter _
      rw [hqueue, List.pairwise_append] at hlt
      exact ((List.pairwise_cons.mp hlt.2.1).1 m hm).le
  · dsimp only at hfound
    split at hfound
    · cases hfound
    · exact (Option.some.inj hfound).symm

/-- **Rounds that succeed** have met levels in shape only, and stages that are
levels.

A round that succeeds has all requirements at hand, so the level is not mixed,
and it has put them in order, so the level is not circular. At the end nothing
is left, and all nodes have had a level. -/
theorem Runs.levels {placed pending : List Nat} {stages : List (List Nat)}
    (h : g.Runs placed pending stages) (hk : g.AtRound k placed pending) :
    (∀ j ≥ k, g.InShape j) ∧ (∀ n ∈ pending, g.depth n ≠ ⊤) ∧
      ∀ i n, (∃ stage ∈ stages[i]?, n ∈ stage) ↔ n < g.size ∧ g.depth n = (k + i : Nat) := by
  induction h generalizing k with
  | done placed =>
    -- nothing is left, so there is nothing as deep as that
    have hshallow : ∀ n < g.size, ∀ j ≥ k, g.depth n ≠ j := by
      intro n hn j hj hdepth
      have hchain := (depth_eq_iff.mp hdepth).1.of_le hj
      exact List.not_mem_nil ((hk.mem_pending n).mpr ⟨hn, hchain⟩)
    refine ⟨fun j hj => inShape_of_forall_ne fun n hn => hshallow n hn j hj,
      fun n hn => absurd hn List.not_mem_nil, fun i n => iff_of_false (by simp) ?_⟩
    exact fun hn => hshallow n hn.1 (k + i) (Nat.le_add_right k i) hn.2
  | @round placed pending stage stages hqueued hreach hstage hrest ih =>
    obtain ⟨hshape, hfinite, hstages⟩ := ih (hk.next hstage)
    refine ⟨fun j hj => ?_, fun n hn => ?_, fun i n => ?_⟩
    · obtain rfl | hj := eq_or_lt_of_le hj
      · exact ⟨hk.not_mixed_iff.mpr hreach, hk.not_circular hstage⟩
      · exact hshape j hj
    · by_cases hq : n ∈ g.queued placed pending
      · rw [(hk.mem_queued_iff.mp hq).2]
        exact ENat.natCast_ne_top k
      · exact hfinite n (mem_waiting_of_not_mem_queued hn hq)
    · cases i with
      | zero => simp [mem_stage hstage, hk.mem_queued_iff]
      | succ i =>
        rw [List.getElem?_cons_succ, hstages i n, Nat.add_right_comm k 1 i, Nat.add_assoc]

/-- **Rounds that fail** have met a level that is not in shape, the first of
these, or nodes without a depth and no such level.

The rounds before the last one succeed, so their levels are in shape. The last
one looks for what is out of reach first. If there is something then its level
is mixed, and only otherwise can it be found circular. -/
theorem Stops.levels {placed pending : List Nat} {cycle : Cycle}
    (h : g.Stops placed pending cycle) (hk : g.AtRound k placed pending)
    (hsorted : pending.Pairwise (· < ·)) :
    (∃ l ≥ k, (∀ j, k ≤ j → j < l → g.InShape j) ∧
      ((∃ n missing, g.Names l n missing ∧ cycle = .mixed (g.label n) (g.labels missing)) ∨
        ¬g.Mixed l ∧ g.Circular l ∧ ∃ names, cycle = .requires names)) ∨
    (∀ j ≥ k, g.InShape j) ∧ (∃ n < g.size, g.depth n = ⊤) ∧ ∃ names, cycle = .after names := by
  induction h generalizing k with
  | @unqueued placed pending hne hnone =>
    have htop : ∀ n ∈ pending, g.depth n = ⊤ := fun n hn => hk.depth_eq_top hnone hn
    obtain ⟨n, hn⟩ := List.exists_mem_of_ne_nil _ hne
    refine .inr ⟨fun j hj => inShape_of_forall_ne fun m hm hdepth => ?_,
      ⟨n, ((hk.mem_pending n).mp hn).1, htop n hn⟩, _, rfl⟩
    have hchain := (depth_eq_iff.mp hdepth).1.of_le hj
    rw [htop m ((hk.mem_pending m).mpr ⟨hm, hchain⟩)] at hdepth
    exact ENat.top_ne_natCast j hdepth
  | @unreachable placed pending cycle hcycle =>
    exact .inl ⟨k, le_rfl, fun j hj hlt => absurd hlt (Nat.not_lt.mpr hj),
      .inl (hk.exists_names hsorted hcycle)⟩
  | @unarranged placed pending stuck hreach hstuck =>
    exact .inl ⟨k, le_rfl, fun j hj hlt => absurd hlt (Nat.not_lt.mpr hj),
      .inr ⟨hk.not_mixed_iff.mpr hreach, hk.circular hreach hstuck, _, rfl⟩⟩
  | @later placed pending stage cycle hqueued hreach hstage hrest ih =>
    have hshape : g.InShape k := ⟨hk.not_mixed_iff.mpr hreach, hk.not_circular hstage⟩
    obtain ⟨l, hl, hbelow, hfails⟩ | ⟨habove, hends⟩ := ih (hk.next hstage) (hsorted.filter _)
    · refine .inl ⟨l, Nat.le_of_succ_le hl, fun j hj hlt => ?_, hfails⟩
      obtain rfl | hj := eq_or_lt_of_le hj
      · exact hshape
      · exact hbelow j hj hlt
    · refine .inr ⟨fun j hj => ?_, hends⟩
      obtain rfl | hj := eq_or_lt_of_le hj
      · exact hshape
      · exact habove j hj

/-!
## The outcome

With the runs described by levels, there is one outcome for each of the cases,
and the cases exclude each other.
-/

/-- **The outcome of scheduling, by depth.** A node has no depth if a cycle of
nodes that come after each other is reached from it, and only then. The least
level that is mixed or circular decides: if it is mixed then its first node that
requires a deeper one is named, along with all that it requires and is deeper,
and otherwise nodes require each other. If there is no such level then some
nodes come after each other, if not all have a depth, and otherwise there is a
schedule whose stages are the levels.

Before round `k` the nodes of smaller depth are placed, and it queues those of
depth `k`. So it fails exactly if level `k` is mixed or circular. A run either
goes through all levels, or ends with the first that has something wrong with
it, and it reports that. Nodes without a depth are in no level, and they are
what is left if no level stopped the run. -/
theorem schedule_eq_of_levels (g : Graph) :
    (∀ n, g.depth n = ⊤ ↔ ∃ m, ReflTransGen g.ComesAfter n m ∧ TransGen g.ComesAfter m m) ∧
    (∀ k, IsLeast { k | g.Mixed k ∨ g.Circular k } k →
      (g.Mixed k → ∃ n missing, g.Names k n missing ∧
        g.schedule = .error (.mixed (g.label n) (g.labels missing))) ∧
      (¬g.Mixed k → ∃ names, g.schedule = .error (.requires names))) ∧
    ((∀ k, ¬(g.Mixed k ∨ g.Circular k)) →
      ((∃ n < g.size, g.depth n = ⊤) → ∃ names, g.schedule = .error (.after names)) ∧
      ((∀ n < g.size, g.depth n ≠ ⊤) → ∃ s : Schedule, g.schedule = .ok s ∧
        ∀ k n : Nat, (∃ stage ∈ s.stages[k]?, n ∈ stage) ↔ n < g.size ∧ g.depth n = k)) := by
  refine ⟨fun n => depth_eq_top_iff, ?_⟩
  cases hs : g.schedule with
  | ok s =>
    obtain ⟨hshape, hfinite, hstages⟩ := (runs_of_schedule_eq_ok hs).levels atRound_zero
    refine ⟨fun k hk => ?_, fun _ => ⟨fun ⟨n, hn, htop⟩ => ?_, fun _ => ⟨s, rfl, fun k n => ?_⟩⟩⟩
    · exact absurd hk.1 (not_or.mpr (hshape k (Nat.zero_le k)))
    · exact absurd htop (hfinite n (mem_indices.mpr hn))
    · rw [hstages k n, Nat.zero_add]
  | error cycle =>
    have hsorted : g.indices.Pairwise (· < ·) := List.pairwise_lt_range
    obtain ⟨l, -, hbelow, hfails⟩ | ⟨hshape, ⟨n, hn, htop⟩, names, rfl⟩ :=
      (stops_of_schedule_eq_error hs).levels atRound_zero hsorted
    · have hwrong : g.Mixed l ∨ g.Circular l := by
        obtain ⟨n, missing, hnames, -⟩ | ⟨-, hcircular, -⟩ := hfails
        · exact .inl ⟨n, hnames.deeper⟩
        · exact .inr hcircular
      refine ⟨fun k hk => ?_, fun hnone => absurd hwrong (hnone l)⟩
      -- nothing is wrong before level `l`, so that it is the least
      obtain rfl : k = l := by
        refine le_antisymm (hk.2 hwrong) (Nat.le_of_not_lt fun hlt => ?_)
        exact absurd hk.1 (not_or.mpr (hbelow k (Nat.zero_le k) hlt))
      obtain ⟨n, missing, hnames, rfl⟩ | ⟨hmixed, -, names, rfl⟩ := hfails
      · exact ⟨fun _ => ⟨n, missing, hnames, rfl⟩, fun hno => absurd ⟨n, hnames.deeper⟩ hno⟩
      · exact ⟨fun hmixed' => absurd hmixed' hmixed, fun _ => ⟨names, rfl⟩⟩
    · refine ⟨fun k hk => absurd hk.1 (not_or.mpr (hshape k (Nat.zero_le k))), fun _ =>
        ⟨fun _ => ⟨names, rfl⟩, fun hfinite => absurd htop (hfinite n hn)⟩⟩

/-- Two nodes that come after each other, required from the second level. -/
def buried : Graph :=
  Graph.empty.addNode { label := "a" } |>.addNode { label := "b" } |>.addNode { label := "c" }
    |>.addNode { label := "d" }
    |>.connect .after 1 0 |>.connect .after 2 3 |>.connect .after 3 2 |>.connect .requires 1 2

/-- The cycle is never reported. What is reported is the requirement of a node
in the second level. -/
theorem buried_mixed : IsLeast { k | buried.Mixed k ∨ buried.Circular k } 1 ∧
    ∃ n missing, buried.Names 1 n missing ∧
      buried.schedule = .error (.mixed (buried.label n) (buried.labels missing)) := by
  have hone : buried.depth 1 = (1 : Nat) := depth_eq_iff.mpr (by decide)
  have hafter : buried.ComesAfter 2 3 ∧ buried.ComesAfter 3 2 := by decide
  have htwo : buried.depth 2 = ⊤ :=
    depth_eq_top_iff.mpr ⟨2, .refl, .tail (.single hafter.1) hafter.2⟩
  have hmixed : buried.Mixed 1 := ⟨1, hone, 2, by decide, htwo ▸ ENat.natCast_lt_top 1⟩
  have hleast : IsLeast { k | buried.Mixed k ∨ buried.Circular k } 1 := by
    refine ⟨.inl hmixed, fun k hk => Nat.one_le_iff_ne_zero.mpr ?_⟩
    rintro rfl
    -- only the second node requires anything, and that is on the second level
    have honly : ∀ n d, d ∈ buried.dependencies .requires n → buried.depth n ≠ (0 : Nat) := by
      intro n d hd hn
      have hn' : n = 1 := (by decide : ∀ n < 4, buried.dependencies .requires n ≠ [] → n = 1) n
        (lt_size_of_mem_dependencies hd).1 (List.ne_nil_of_mem hd)
      rw [hn', hone] at hn
      exact absurd hn (by decide)
    obtain ⟨n, hn, d, hd, -⟩ | ⟨n, hn⟩ := hk
    · exact honly n d hd hn
    · obtain ⟨d, ⟨hd, hdepth, -⟩, -⟩ := TransGen.head'_iff.mp hn
      exact honly n d hd hdepth
  exact ⟨hleast, ((schedule_eq_of_levels buried).2.1 1 hleast).1 hmixed⟩

end Stagewise.Stage.Graph
