import Stagewise.Proofs.Stage.Members
import Stagewise.Proofs.Stage.Soundness

/-!
# The order within a stage

A stage is put in order by passes over its queue, and each pass goes through the
queue by number. A node is taken out as soon as all that it requires is visible.
So if it requires something with a smaller number then both may go in the same
pass, for by then that one is visible; and if it requires something with a
greater number then it has to wait for the next pass, for the pass has gone by
when that one is taken out. The number of the pass in which a node goes is thus
told by the passes of what it requires (`Graph.IsPass`), and the nodes of a
stage are in the order of their passes, and by number within a pass
(`Graph.arrange_passes`).

In all this a list of requirements is only asked what is in it. Graphs with the
same dependencies (`Graph.SameDependencies`), in whatever order and however
often they were added, have the same schedule.
-/

namespace Stagewise.Stage.Graph

variable {g g' : Graph} {visible queue stage : List Nat} {n : Nat} {pass : Nat → Nat}

/-!
## Passes

A numbering of the passes is described by what it has to satisfy, at each node
in terms of the nodes that it requires. It is not a definition by recursion.
There is such a numbering if the nodes can be put in order, and then there is
only one.
-/

/-- The first pass in which a node can go that requires another one: the pass of
that one, or the next if it has gone by. -/
def passAfter (pass : Nat → Nat) (n d : Nat) : Nat := if d < n then pass d else pass d + 1

/-- What a node requires within some nodes. -/
def requiredWithin (g : Graph) (nodes : List Nat) (n : Nat) : Finset Nat :=
  (g.dependencies .requires n).toFinset.filter (· ∈ nodes)

/-- **The passes of nodes**: a node goes as soon as all can have gone that it
requires of them. -/
def IsPass (g : Graph) (nodes : List Nat) (pass : Nat → Nat) : Prop :=
  ∀ n ∈ nodes, pass n = (g.requiredWithin nodes n).sup (passAfter pass n)

/-- **By pass, and by number within a pass.** -/
def ByPass (pass : Nat → Nat) (m n : Nat) : Prop :=
  Prod.Lex (· < ·) (· < ·) (pass m, m) (pass n, n)

/-- An earlier pass, or the same pass and a smaller number. -/
theorem byPass_iff {m n : Nat} : ByPass pass m n ↔ pass m < pass n ∨ pass m = pass n ∧ m < n :=
  Prod.lex_def

/-- What is required within some nodes is required, and is one of them. -/
theorem mem_requiredWithin {nodes : List Nat} {d : Nat} :
    d ∈ g.requiredWithin nodes n ↔ d ∈ g.dependencies .requires n ∧ d ∈ nodes := by
  rw [requiredWithin, Finset.mem_filter, List.mem_toFinset]

/-- The order of the nodes does not matter to their passes. -/
theorem IsPass.congr {nodes nodes' : List Nat} (h : g.IsPass nodes pass)
    (hmem : ∀ n, n ∈ nodes' ↔ n ∈ nodes) : g.IsPass nodes' pass := by
  intro n hn
  have hsame : g.requiredWithin nodes' n = g.requiredWithin nodes n :=
    Finset.filter_congr fun d _ => hmem d
  rw [hsame, ← h n ((hmem n).mp hn)]

/-!
## One pass

A pass goes through the queue in order. So whether it takes a node out depends
on what is visible from the start and on the nodes with smaller numbers, and on
no others.
-/

/-- The nodes that a pass takes out come in the order of the queue. -/
theorem taken_sublist (visible queue : List Nat) : (g.pass visible queue).1.Sublist queue := by
  induction queue generalizing visible with
  | nil => exact .slnil
  | cons m queue ih =>
    unfold Graph.pass
    split
    · exact (ih (m :: visible)).cons_cons m
    · exact (ih visible).cons m

/-- What is in the queue is taken out or left. -/
theorem mem_queue_iff (visible queue : List Nat) (n : Nat) :
    n ∈ queue ↔ n ∈ (g.pass visible queue).1 ∨ n ∈ (g.pass visible queue).2 :=
  (pass_perm visible queue).mem_iff.symm.trans List.mem_append

/-- What a pass leaves was not taken out. -/
theorem not_mem_taken (hsorted : queue.Pairwise (· < ·)) (hn : n ∈ (g.pass visible queue).2) :
    n ∉ (g.pass visible queue).1 := fun hn' =>
  List.disjoint_of_nodup_append
    ((pass_perm visible queue).nodup_iff.mpr (hsorted.imp Nat.ne_of_lt)) hn' hn

/-- **What a pass takes out**: the nodes of which all requirements are visible,
or have a smaller number and are taken out as well. -/
theorem mem_pass_iff (hsorted : queue.Pairwise (· < ·)) (visible : List Nat) (n : Nat) :
    n ∈ (g.pass visible queue).1 ↔ n ∈ queue ∧ ∀ d ∈ g.dependencies .requires n,
      d ∈ visible ∨ d ∈ (g.pass visible queue).1 ∧ d < n := by
  induction queue generalizing visible with
  | nil => simp [Graph.pass]
  | cons m queue ih =>
    obtain ⟨hm, hsorted⟩ := List.pairwise_cons.mp hsorted
    -- whatever is taken out after `m` has a greater number
    have hlater (visible : List Nat) {d : Nat} (hd : d ∈ (g.pass visible queue).1) : m < d :=
      hm d ((taken_sublist visible queue).subset hd)
    unfold Graph.pass
    split
    next hready =>
      have hready := ready_iff.mp hready
      simp only [List.mem_cons]
      rw [ih hsorted]
      constructor
      · rintro (rfl | ⟨hn, hreq⟩)
        · exact ⟨.inl rfl, fun d hd => .inl (hready d hd)⟩
        · refine ⟨.inr hn, fun d hd => ?_⟩
          obtain hd | ⟨hd, hlt⟩ := hreq d hd
          · obtain rfl | hd := List.mem_cons.mp hd
            · exact .inr ⟨.inl rfl, hm n hn⟩
            · exact .inl hd
          · exact .inr ⟨.inr hd, hlt⟩
      · rintro ⟨rfl | hn, hreq⟩
        · exact .inl rfl
        · refine .inr ⟨hn, fun d hd => ?_⟩
          obtain hd | ⟨rfl | hd, hlt⟩ := hreq d hd
          · exact .inl (List.mem_cons_of_mem _ hd)
          · exact .inl List.mem_cons_self
          · exact .inr ⟨hd, hlt⟩
    next hready =>
      rw [List.mem_cons, ih hsorted]
      constructor
      · rintro ⟨hn, hreq⟩
        exact ⟨.inr hn, hreq⟩
      · rintro ⟨rfl | hn, hreq⟩
        · -- nothing that is taken out comes before `n`, so that `n` would be ready
          refine absurd (ready_iff.mpr fun d hd => ?_) hready
          exact (hreq d hd).resolve_right fun h => Nat.lt_asymm h.2 (hlater visible h.1)
        · exact ⟨hn, hreq⟩

/-!
## All passes

By recursion on the queue. The nodes that the first pass takes out have pass
zero, and the passes of the others are numbered from one on. That this is a
numbering of the passes for the whole queue has to be checked where a node that
is left requires one that was taken out.
-/

/-- The passes of a queue, from those of what the first one leaves. -/
def passFrom (taken : List Nat) (pass : Nat → Nat) (n : Nat) : Nat :=
  if n ∈ taken then 0 else pass n + 1

/-- What was taken out went in the first pass. -/
theorem passFrom_of_mem {taken : List Nat} (h : n ∈ taken) : passFrom taken pass n = 0 := if_pos h

/-- What was left goes a pass later than it would by itself. -/
theorem passFrom_of_not_mem {taken : List Nat} (h : n ∉ taken) :
    passFrom taken pass n = pass n + 1 := if_neg h

/-- A requirement that went in the first pass asks for that pass or the
second. -/
theorem passAfter_passFrom_of_mem {taken : List Nat} {d : Nat} (h : d ∈ taken) :
    passAfter (passFrom taken pass) n d = if d < n then 0 else 1 := by
  rw [passAfter, passFrom_of_mem h]

/-- A requirement that goes later asks for a later pass. -/
theorem passAfter_passFrom_of_not_mem {taken : List Nat} {d : Nat} (h : d ∉ taken) :
    passAfter (passFrom taken pass) n d = passAfter pass n d + 1 := by
  rw [passAfter, passAfter, passFrom_of_not_mem h]
  split <;> rfl

/-- **One pass more**: what it takes out goes first, and what it leaves goes a
pass later than it would without. -/
theorem IsPass.passFrom (hsorted : queue.Pairwise (· < ·)) (hnew : ∀ n ∈ queue, n ∉ visible)
    (hreach : ∀ n ∈ queue, ∀ d ∈ g.dependencies .requires n, d ∈ visible ∨ d ∈ queue)
    (h : g.IsPass (g.pass visible queue).2 pass) :
    g.IsPass queue (passFrom (g.pass visible queue).1 pass) := by
  have hparts := mem_queue_iff (g := g) visible queue
  have htaken := mem_pass_iff (g := g) hsorted visible
  have hapart (n : Nat) (hn : n ∈ (g.pass visible queue).2) : n ∉ (g.pass visible queue).1 :=
    not_mem_taken hsorted hn
  generalize (g.pass visible queue).1 = taken at hparts htaken hapart ⊢
  generalize (g.pass visible queue).2 = left at hparts hapart h
  intro n hn
  by_cases hnt : n ∈ taken
  · -- what it requires of the queue has gone before it in this very pass
    rw [passFrom_of_mem hnt, eq_comm, ← Nat.le_zero]
    refine Finset.sup_le fun d hd => ?_
    obtain ⟨hreq, hdq⟩ := mem_requiredWithin.mp hd
    obtain ⟨hdt, hlt⟩ := (((htaken n).mp hnt).2 d hreq).resolve_left (hnew d hdq)
    rw [passAfter_passFrom_of_mem hdt, if_pos hlt]
  have hnl : n ∈ left := ((hparts n).mp hn).resolve_left hnt
  rw [passFrom_of_not_mem hnt]
  refine le_antisymm ?_ (Finset.sup_le fun d hd => ?_)
  · obtain hnone | hsome := (g.requiredWithin left n).eq_empty_or_nonempty
    · -- it requires nothing that is left, so something has gone after its turn
      have hzero : pass n = 0 := by rw [h n hnl, hnone, Finset.sup_empty, Nat.bot_eq_zero]
      have hlate : ∃ d ∈ g.dependencies .requires n, ¬(d ∈ visible ∨ d ∈ taken ∧ d < n) := by
        by_contra hall
        push Not at hall
        exact hnt ((htaken n).mpr ⟨hn, hall⟩)
      obtain ⟨d, hreq, hlate⟩ := hlate
      have hdq : d ∈ queue := (hreach n hn d hreq).resolve_left fun hv => hlate (.inl hv)
      have hdt : d ∈ taken := by
        refine ((hparts d).mp hdq).resolve_right fun hdl => ?_
        exact Finset.notMem_empty d (hnone ▸ mem_requiredWithin.mpr ⟨hreq, hdl⟩)
      have hafter : passAfter (Graph.passFrom taken pass) n d = pass n + 1 := by
        rw [passAfter_passFrom_of_mem hdt, if_neg fun hlt => hlate (.inr ⟨hdt, hlt⟩), hzero]
      exact hafter ▸ Finset.le_sup (mem_requiredWithin.mpr ⟨hreq, hdq⟩)
    -- the last of what it requires is left too, and goes a pass later than it would
    · obtain ⟨d, hd, hsup⟩ := Finset.exists_mem_eq_sup _ hsome (passAfter pass n)
      obtain ⟨hreq, hdl⟩ := mem_requiredWithin.mp hd
      have hafter : passAfter (Graph.passFrom taken pass) n d = pass n + 1 := by
        rw [passAfter_passFrom_of_not_mem (hapart d hdl), h n hnl, hsup]
      exact hafter ▸ Finset.le_sup (mem_requiredWithin.mpr ⟨hreq, (hparts d).mpr (.inr hdl)⟩)
  · obtain ⟨hreq, hdq⟩ := mem_requiredWithin.mp hd
    by_cases hdt : d ∈ taken
    · rw [passAfter_passFrom_of_mem hdt]
      split <;> omega
    · have hdl : d ∈ left := ((hparts d).mp hdq).resolve_left hdt
      rw [passAfter_passFrom_of_not_mem hdt, h n hnl]
      exact Nat.succ_le_succ (Finset.le_sup (mem_requiredWithin.mpr ⟨hreq, hdl⟩))

/-- **A queue is put in the order of its passes.** -/
theorem arrange_passes (h : g.arrange visible queue = .ok stage)
    (hsorted : queue.Pairwise (· < ·)) (hnew : ∀ n ∈ queue, n ∉ visible)
    (hreach : ∀ n ∈ queue, ∀ d ∈ g.dependencies .requires n, d ∈ visible ∨ d ∈ queue) :
    ∃ pass, g.IsPass queue pass ∧ stage.Pairwise (ByPass pass) := by
  -- the induction is on the queue, which every pass makes shorter
  fun_induction arrange g visible queue generalizing stage with
  | case1 visible queue hempty =>
    cases h
    rw [List.isEmpty_iff.mp hempty]
    exact ⟨fun _ => 0, fun n hn => absurd hn List.not_mem_nil, .nil⟩
  | case2 => cases h
  | case3 visible queue _ _ ih =>
    cases hrest : g.arrange (visible ++ (g.pass visible queue).1) (g.pass visible queue).2 with
    | error stuck => rw [hrest] at h; cases h
    | ok rest =>
      rw [hrest] at h
      cases h
      have hleft := g.pass_sublist visible queue
      have hrestmem (n : Nat) (hn : n ∈ rest) : n ∉ (g.pass visible queue).1 :=
        not_mem_taken hsorted ((arrange_ok hrest).1.mem_iff.mp hn)
      obtain ⟨pass, hpass, hord⟩ := ih hrest (hsorted.sublist hleft)
        (fun n hn hv => (List.mem_append.mp hv).elim (hnew n (hleft.subset hn))
          (not_mem_taken hsorted hn))
        (fun n hn d hd => by
          rw [List.mem_append, or_assoc, ← mem_queue_iff]
          exact hreach n (hleft.subset hn) d hd)
      refine ⟨passFrom (g.pass visible queue).1 pass, hpass.passFrom hsorted hnew hreach, ?_⟩
      refine List.pairwise_append.mpr ⟨?_, ?_, fun m hm n hn => ?_⟩
      · refine (hsorted.sublist (taken_sublist visible queue)).imp_of_mem fun hm hn hlt => ?_
        exact byPass_iff.mpr (.inr ⟨by rw [passFrom_of_mem hm, passFrom_of_mem hn], hlt⟩)
      · refine hord.imp_of_mem fun hm hn hlt => ?_
        rw [byPass_iff, passFrom_of_not_mem (hrestmem _ hm), passFrom_of_not_mem (hrestmem _ hn)]
        have hlt := byPass_iff.mp hlt
        omega
      · rw [byPass_iff, passFrom_of_mem hm, passFrom_of_not_mem (hrestmem n hn)]
        exact .inl (Nat.succ_pos _)

/-- **Passes are told by the requirements**, where nodes can be put in order. -/
theorem IsPass.unique {pass' : Nat → Nat} (h : g.IsPass stage pass) (h' : g.IsPass stage pass')
    (hord : ∀ n ∈ stage, ∀ d ∈ g.requiredWithin stage n, stage.idxOf d < stage.idxOf n) :
    ∀ n ∈ stage, pass' n = pass n := by
  intro n hn
  induction hk : stage.idxOf n using Nat.strong_induction_on generalizing n with
  | _ k ih =>
    rw [h n hn, h' n hn]
    refine Finset.sup_congr rfl fun d hd => ?_
    have hd' := ih _ (hk ▸ hord n hn d hd) d (mem_requiredWithin.mp hd).2 rfl
    rw [passAfter, passAfter, hd']

/-!
## Schedules

The queue of a round is sorted, as nodes stay in the order in which they were
added from round to round. So a stage is a sorted queue that was put in order,
and all that holds of one holds of it.
-/

/-- **Where a stage comes from**: the queue was sorted, and nothing in it was
placed before. -/
theorem Runs.exists_arranged {placed pending : List Nat} {stages : List (List Nat)}
    (h : g.Runs placed pending stages) (hsorted : pending.Pairwise (· < ·))
    (hnew : ∀ n ∈ pending, n ∉ placed) (hstage : stage ∈ stages) :
    ∃ visible queue, g.arrange visible queue = .ok stage ∧ queue.Pairwise (· < ·) ∧
      (∀ n ∈ queue, n ∉ visible) ∧
      ∀ n ∈ queue, ∀ d ∈ g.dependencies .requires n, d ∈ visible ∨ d ∈ queue := by
  induction h with
  | done => exact absurd hstage List.not_mem_nil
  | @round placed pending stage' stages _ hreach harranged _ ih =>
    obtain rfl | hstage := List.mem_cons.mp hstage
    · refine ⟨placed, g.queued placed pending, harranged, hsorted.filter _,
        fun n hn => hnew n (mem_queued.mp hn).1, fun n hn d hd => ?_⟩
      exact List.mem_append.mp (unreachable?_eq_none_iff.mp hreach n hn d hd)
    · refine ih (hsorted.filter _) (fun n hn hp => ?_) hstage
      obtain hp | hp := List.mem_append.mp hp
      · exact hnew n (mem_waiting.mp hn).1 hp
      · -- what is placed now was queued, and does not wait
        obtain ⟨-, d, hd, hno⟩ := mem_waiting.mp hn
        exact hno ((mem_queued.mp ((mem_stage harranged).mp hp)).2 d hd)

/-- **Graphs with the same dependencies**, in whatever order and however often
they were added. -/
structure SameDependencies (g g' : Graph) : Prop where
  size : g'.size = g.size
  dependencies : ∀ c n d, d ∈ g'.dependencies c n ↔ d ∈ g.dependencies c n

namespace SameDependencies

variable {c : Constraint} {placed pending : List Nat}

/-- Whether a node is ready is a matter of what it depends on. -/
theorem ready_eq (h : SameDependencies g g') (c : Constraint) (placed : List Nat) (n : Nat) :
    g'.ready c placed n = g.ready c placed n := by
  rw [Bool.eq_iff_iff, ready_iff, ready_iff]
  exact forall_congr' fun d => by rw [h.dependencies]

/-- A pass asks whether nodes are ready, and nothing else. -/
theorem pass_eq (h : SameDependencies g g') (visible queue : List Nat) :
    g'.pass visible queue = g.pass visible queue := by
  induction queue generalizing visible with
  | nil => rfl
  | cons n queue ih => rw [Graph.pass, Graph.pass, h.ready_eq, ih, ih]

/-- A queue is put in the same order, or in none. -/
theorem arrange_eq (h : SameDependencies g g') (visible queue : List Nat) :
    g'.arrange visible queue = g.arrange visible queue := by
  fun_induction arrange g visible queue with
  | case1 visible queue hempty => rw [arrange, if_pos hempty]
  | case2 visible queue hne hnone => rw [arrange, if_neg hne, dif_pos (by rwa [h.pass_eq])]
  | case3 visible queue hne hsome ih =>
    rw [arrange, if_neg hne, dif_neg (by rwa [h.pass_eq]), h.pass_eq, ih]

/-- The same nodes are queued. -/
theorem queued_eq (h : SameDependencies g g') (placed pending : List Nat) :
    g'.queued placed pending = g.queued placed pending :=
  List.filter_congr fun n _ => h.ready_eq .after placed n

/-- The same nodes wait. -/
theorem waiting_eq (h : SameDependencies g g') (placed pending : List Nat) :
    g'.waiting placed pending = g.waiting placed pending :=
  List.filter_congr fun n _ => by rw [h.ready_eq]

/-- The same rounds succeed, with the same stages. -/
theorem runs (h : SameDependencies g g') {stages : List (List Nat)}
    (hruns : g.Runs placed pending stages) : g'.Runs placed pending stages := by
  induction hruns with
  | done placed => exact .done placed
  | @round placed pending stage stages hqueued hreach harranged _ ih =>
    rw [← h.waiting_eq] at ih
    refine .round (h.queued_eq .. ▸ hqueued) ?_ (h.queued_eq .. ▸ h.arrange_eq .. ▸ harranged) ih
    rw [h.queued_eq, unreachable?_eq_none_iff]
    exact fun n hn d hd =>
      unreachable?_eq_none_iff.mp hreach n hn d ((h.dependencies .requires n d).mp hd)

end SameDependencies

/-- Rounds that succeed lead to their stages. -/
theorem Runs.rounds_eq {placed pending : List Nat} {stages : List (List Nat)}
    (h : g.Runs placed pending stages) : g.rounds placed pending = .ok stages := by
  induction h with
  | done => rw [rounds]; rfl
  | @round placed pending stage stages hqueued hreach harranged _ ih =>
    have hne : ¬pending.isEmpty = true := by
      intro hempty
      rw [List.isEmpty_iff.mp hempty] at hqueued
      exact hqueued rfl
    rw [rounds, if_neg hne, dif_neg hqueued]
    simp only [hreach, harranged, ih]
    rfl

/-- **The order within a stage.** Every stage of a schedule is in the order of
the passes, and by number within a pass, where the pass of a node is the last of
those that its requirements within the stage ask for: a requirement asks for its
own pass if it has a smaller number, and for the next one otherwise. There is
one way to number the passes like that. Nodes that require nothing within the
stage are in the order they were added in. All this is the same for every graph
with the same dependencies, in whatever order and however often they were added.

A stage is what `Graph.arrange` made of a sorted queue. By recursion on the
queue, a pass takes out the nodes that can go in it, by number, and the rest
goes in later passes. So there is a numbering, and the stage is in its order.
There is no other, because in the order of the stage what a node requires comes
before it, and the numbers are determined from the first on. The loops ask of
dependencies only whether they are in some list, and this is why other graphs
with the same ones are scheduled alike. -/
theorem stages_by_pass (g : Graph) (s : Schedule) (h : g.schedule = .ok s) :
    (∀ stage ∈ s.stages,
      (∃ pass, g.IsPass stage pass ∧ stage.Pairwise (ByPass pass) ∧
        ∀ pass', g.IsPass stage pass' → ∀ n ∈ stage, pass' n = pass n) ∧
      (stage.filter (g.requiredWithin stage · = ∅)).Pairwise (· < ·)) ∧
    ∀ g', SameDependencies g g' → g'.schedule = .ok s := by
  have hruns := runs_of_schedule_eq_ok h
  refine ⟨fun stage hstage => ?_, fun g' hsame => ?_⟩
  · obtain ⟨visible, queue, harranged, hsorted, hnew, hreach⟩ :=
      hruns.exists_arranged List.pairwise_lt_range (fun n _ => List.not_mem_nil) hstage
    obtain ⟨hperm, hinOrder⟩ := arrange_ok harranged
    obtain ⟨pass, hpass, hord⟩ := arrange_passes harranged hsorted hnew hreach
    have hpass : g.IsPass stage pass := hpass.congr fun n => hperm.mem_iff
    refine ⟨⟨pass, hpass, hord, fun pass' hpass' => hpass.unique hpass' fun n hn d hd => ?_⟩, ?_⟩
    · obtain ⟨hreq, hds⟩ := mem_requiredWithin.mp hd
      exact hinOrder.idxOf_lt hn hreq (hnew d (hperm.mem_iff.mp hds))
    · -- without requirements a node goes in the first pass
      have hfirst (n : Nat) (hn : n ∈ stage.filter (g.requiredWithin stage · = ∅)) :
          pass n = 0 := by
        obtain ⟨hn, hnone⟩ := List.mem_filter.mp hn
        rw [hpass n hn, of_decide_eq_true hnone, Finset.sup_empty, Nat.bot_eq_zero]
      refine (hord.filter _).imp_of_mem fun {m n} hm hn hlt => ?_
      have hlt := byPass_iff.mp hlt
      rw [hfirst m hm, hfirst n hn] at hlt
      exact (hlt.resolve_left (Nat.lt_irrefl 0)).2
  · have hindices : g'.indices = g.indices := congrArg List.range hsame.size
    rw [schedule, hindices, (hsame.runs hruns).rounds_eq]
    rfl

/-- Five nodes: the first requires the third and that the last, each with a
greater number, and the second requires the first, with a smaller one. One of
these was added twice. -/
def braided : Graph :=
  ((((Graph.empty.addNode { label := "a" }).addNode { label := "b" }).addNode
      { label := "c" }).addNode { label := "d" }).addNode { label := "e" }
    |>.connect .requires 1 0 |>.connect .requires 0 2 |>.connect .requires 2 4
    |>.connect .requires 0 2

/-- There are three passes. The second node goes in the last of them, along with
the first. -/
theorem braided_by_pass : braided.schedule = .ok ⟨[[3, 4, 2, 0, 1]]⟩ ∧
    (∃ pass, braided.IsPass [3, 4, 2, 0, 1] pass ∧ [3, 4, 2, 0, 1].Pairwise (ByPass pass) ∧
      [3, 4, 2, 0, 1].map pass = [0, 0, 1, 2, 2]) ∧
    ∀ g', SameDependencies braided g' → g'.schedule = .ok ⟨[[3, 4, 2, 0, 1]]⟩ := by
  have h : braided.schedule = .ok ⟨[[3, 4, 2, 0, 1]]⟩ := by cbv
  obtain ⟨hstages, hsame⟩ := stages_by_pass braided _ h
  obtain ⟨⟨pass, hpass, hord, hunique⟩, -⟩ := hstages _ List.mem_cons_self
  have hlisted : braided.IsPass [3, 4, 2, 0, 1] fun n => [2, 2, 1, 0, 0].getD n 0 := by
    unfold IsPass
    decide
  have hmap : [3, 4, 2, 0, 1].map pass = [3, 4, 2, 0, 1].map fun n => [2, 2, 1, 0, 0].getD n 0 :=
    List.map_congr_left fun n hn => (hunique _ hlisted n hn).symm
  exact ⟨h, ⟨pass, hpass, hord, hmap⟩, hsame⟩

end Stagewise.Stage.Graph
