import Stagewise.Compile
import Stagewise.Proofs.Analysis.Wheel
import Stagewise.Proofs.Dependency.Circuit
import Stagewise.Proofs.Source.Plain
import Stagewise.Proofs.Stage.Depth

/-!
# Circuits and compilation

A constant whose value is computed from itself has none. Such a constant lies on
a circuit of dependencies, and a module with a circuit that is not `Hidden` is
refused before anything is checked, whatever else is in it. A module with a
hidden circuit may be compiled, and for every hidden shape there is one that is:
the wheel, which has the circuit and nothing else. So the shape of a circuit
says exactly whether the compiler can be relied upon to refuse it
(`Dependencies.circular_refused_unless_hidden`), and circular constants are not
always refused (`ouroboros_compiles`).

Why a wheel with a hidden circuit compiles is seen by going through its
schedule. The built-ins stand by themselves. The first declaration of the wheel
in the schedule cannot require the next one, which would have to be there before
it, and so both are functions. But then settling it goes around the whole wheel,
and nothing is left to do when the others come up.
-/

namespace Stagewise

open Analysis Circuit Relation

/-! ## From a module to its outcome -/

namespace Compile

variable {β : Type} {m : Source.Module} {ds : Declarations} {backend : Backend β} {b : β}
  {options : Options}

/-- A module without a schedule is refused, and the backend hears nothing of
it. -/
theorem compileWith_of_schedule_eq_error {cycle : Cycle} (hm : Declarations.collect m = .ok ds)
    (h : (stageGraph ds).schedule = .error cycle) :
    compileWith m backend b options
      = { result := .error (.fatal (.cycle cycle)), backend := b } := by
  rw [compileWith, hm]
  dsimp only
  rw [h]

/-- A module with a schedule is compiled if its declarations can be settled in
that order. -/
theorem result_compileWith {schedule : Stage.Schedule} {scopes : Scopes} {t : State β}
    (hm : Declarations.collect m = .ok ds) (h : (stageGraph ds).schedule = .ok schedule)
    (hscopes : rootScopes ((Context.mk ds options backend).start b).scopes = .ok scopes)
    (ht : settleAll ⟨ds, options, backend⟩ (stageGraph ds) schedule.order
      { (Context.mk ds options backend).start b with scopes } = .ok () t) :
    (compileWith m backend b options).result
      = conclude ⟨ds, options, backend⟩ (stageGraph ds) schedule t := by
  rw [compileWith, hm]
  dsimp only at ht ⊢
  rw [h]
  dsimp only
  rw [scheduled]
  dsimp only
  rw [hscopes]
  dsimp only
  rw [ht]

end Compile

namespace Wheel

variable {n : Nat} (w : Wheel n)

/-!
## The schedule of a wheel

That a wheel has a schedule is shown by naming one. The stage graph of a wheel
is the wheel itself with some steps missing, those from a function to a
function. If one is missing then the places can be counted from there backwards,
and every declaration requires one with a smaller number.
-/

/-- The shape of a wheel. -/
def shape (i : Fin (n + 1)) : Turn := ⟨w.isFunction i, .value⟩

/-- A declaration of a wheel uses the next one and nothing else. -/
theorem uses_item (i : Fin (n + 1)) :
    (Declaration.source (w.item i)).uses = [⟨.unplaced (w.name (next i)), .value⟩] := by
  unfold item reference
  cases w.isFunction i <;> cases w.isFunction (next i) <;> rfl

/-- There is nothing to expand on a wheel. -/
theorem isPlain_item (i : Fin (n + 1)) : (w.item i).isPlain = true := by
  unfold item reference
  cases w.isFunction i <;> cases w.isFunction (next i) <;> rfl

/-- What is a function on the wheel is one in the module. -/
theorem isFunction_declarations (i : Fin (n + 1)) :
    w.declarations.isFunction (w.name i) = w.isFunction i := by
  rw [← name_item, Declarations.isFunction_name (w.mem_entries.mpr (.inr ⟨i, rfl⟩))]
  unfold item
  cases w.isFunction i <;> rfl

/-- Every declaration uses the next one, as a value. There are no other uses. -/
theorem mem_targets_iff {role : Role} {x y : String} :
    y ∈ (Dependencies.collect w.declarations).targets w.declarations role x ↔
      role = .value ∧ ∃ i, x = w.name i ∧ y = w.name (next i) := by
  constructor
  · intro h
    obtain ⟨d, hd, rfl⟩ := Dependencies.exists_mem_entries_of_mem_targets_collect h
    obtain ⟨-, u, hu, rfl, rfl⟩ := (Dependencies.mem_targets_collect hd).mp h
    obtain ⟨b, rfl⟩ | ⟨i, rfl⟩ := w.mem_entries.mp hd
    · exact absurd hu List.not_mem_nil
    · rw [uses_item] at hu
      obtain rfl := List.mem_singleton.mp hu
      exact ⟨rfl, i, w.name_item i, rfl⟩
  · rintro ⟨rfl, i, rfl, rfl⟩
    rw [← w.name_item i, Dependencies.mem_targets_collect (w.mem_entries.mpr (.inr ⟨i, rfl⟩)),
      uses_item]
    exact ⟨w.mem_names (next i), _, List.mem_singleton.mpr rfl, rfl, rfl⟩

/-- A wheel is a circuit. -/
theorem isCircuit :
    (Dependencies.collect w.declarations).IsCircuit w.declarations w.shape w.name :=
  fun i => ⟨w.isFunction_declarations i, w.mem_targets_iff.mpr ⟨rfl, i, rfl, rfl⟩⟩

/-- A declaration requires the next one, unless both are functions. -/
theorem edge_iff {c : Stage.Constraint} {x y : String} :
    (Dependencies.collect w.declarations).Edge w.declarations x y c ↔
      c = .requires ∧ ∃ i, x = w.name i ∧ y = w.name (next i) ∧
        ¬(w.isFunction i = true ∧ w.isFunction (next i) = true) := by
  cases c with
  | after => simp [Dependencies.Edge, mem_targets_iff]
  | requires =>
    have hnever : ∀ x y, ¬(Dependencies.collect w.declarations).DependsThroughType
        w.declarations x y := by
      rintro x y ⟨a, b, -, hab, -⟩
      exact absurd (w.mem_targets_iff.mp hab).1 (by decide)
    simp only [Dependencies.Edge, mem_targets_iff, hnever, true_and]
    constructor
    · rintro ⟨⟨i, rfl, rfl⟩, hreq⟩
      rw [isFunction_declarations, isFunction_declarations] at hreq
      exact ⟨i, rfl, rfl, fun h => hreq h.1 h.2⟩
    · rintro ⟨i, rfl, rfl, hreq⟩
      rw [isFunction_declarations, isFunction_declarations]
      exact ⟨⟨i, rfl, rfl⟩, fun h h' => hreq ⟨h, h'⟩⟩

/-- **A wheel with two functions in a row has a schedule.** -/
theorem exists_schedule {p : Fin (n + 1)} (hp : w.isFunction p = true)
    (hp' : w.isFunction (next p) = true) :
    ∃ schedule, (Compile.stageGraph w.declarations).schedule = .ok schedule := by
  cases hs : (Compile.stageGraph w.declarations).schedule with
  | ok schedule => exact ⟨schedule, rfl⟩
  | error cycle =>
    exfalso
    obtain hcyclic | ⟨j, k, -, hlt⟩ :=
      (Stage.Graph.stops_of_schedule_eq_error hs).cyclic_or_deeper Stage.Graph.atRound_zero
    · -- the way to `p` gets shorter along every edge, for no edge leads on from `p`
      obtain ⟨x, hx⟩ := Dependencies.cyclic_stageGraph_iff.mp hcyclic
      refine not_transGen_self_of_lt (fun x => (p - w.name.invFun x).val) ?_ x hx
      rintro _ _ ⟨c, hedge⟩
      obtain ⟨-, i, rfl, rfl, hi⟩ := w.edge_iff.mp hedge
      have hinv : ∀ j, w.name.invFun (w.name j) = j := Function.leftInverse_invFun w.injective
      show (p - w.name.invFun (w.name (next i))).val < (p - w.name.invFun (w.name i)).val
      rw [hinv, hinv]
      exact sub_next_lt (fun h => hi (h ▸ ⟨hp, hp'⟩))
    · -- nothing comes after anything, so that nothing is deeper
      have hchain : (Compile.stageGraph w.declarations).HasChain 1 k := by
        rw [← Stage.Graph.le_depth_iff, Nat.cast_one, Order.one_le_iff_ne_zero]
        exact (pos_of_gt hlt).ne'
      obtain ⟨d, hd, -⟩ := hchain
      obtain ⟨x, y, -, -, hedge⟩ := Dependencies.mem_dependencies_stageGraph.mp hd
      exact absurd (w.edge_iff.mp hedge).1 (by decide)

/-!
## Going through the schedule

The schedule that was found is not known, only that it respects the graph. So
the proof goes through any schedule that does, node by node, with an invariant
(`Between`): either no declaration of the wheel was settled yet, or all of them
were. It is the first one that matters. All that it requires is settled before
it, so it can require nothing on the wheel, which is to say that it is a
function and that the next one is.
-/

variable {ε : Type} {e : Option (Evaluator ε)} {s t : State (Buffer ε)} {new : List String}

/-- In this order of definitions the wheel was gone around, back to a function
that uses a function. -/
def Turned (order : List String) : Prop :=
  ∃ y, w.isFunction y = true ∧ w.isFunction (next y) = true ∧ w.before y (n + 1) <:+: order

/-- **Between two nodes of the schedule**, where `visible` are those before: the
wheel has not been entered yet, or it has been gone around. -/
structure Between (visible : List Nat) (s : State (Buffer ε)) : Prop extends w.Calm s where
  diagnostics : s.diagnostics = []
  inProgress : s.inProgress = []
  nodup : s.defined.Nodup
  declared : ∀ x ∈ s.defined, x ∈ w.declarations.names
  settled : ∀ j ∈ visible, ∀ x, w.declarations.names[j]? = some x → x ∈ s.defined
  wheel : (∀ i, Untouched s (w.name i)) ∨ w.Turned s.defined

/-- A built-in is settled by itself. -/
theorem settle_builtin {b : Builtin} {depth : Nat} (hs : w.Calm s) (hprogress : s.inProgress = [])
    (hfirst : b.name ∉ s.defined) :
    Succeeds (analyzeWithin (w.context e) (depth + 1) (.builtin b)) s
      (fun _ t => w.Advance s t [b.name] ∧
        ∀ i, t.types.lookup (w.name i) = s.types.lookup (w.name i)) := by
  rw [analyzeWithin]
  refine .settle (not_or.mpr ⟨hfirst, by simp [hs.failed]⟩) ?_
  refine .examineBuiltin rfl hfirst
    (fun t _ hdiagnostics hdefined hfailed hinProgress _ htypes hvalues => ?_)
  have hother : ∀ i, t.types.lookup (w.name i) = s.types.lookup (w.name i) := by
    intro i
    rw [htypes, List.lookup_cons, beq_false_of_ne (w.fresh i b)]
  refine ⟨?_, hother⟩
  exact
    { defined := hdefined
      failed := hfailed
      diagnostics := hdiagnostics
      inProgress := by simp [hinProgress, hprogress]
      scopes := rfl
      types := fun i ty hi => (hother i).trans hi
      values := fun i => hvalues _ (w.fresh i b) }

namespace Between

variable {w} {visible : List Nat} {depth j : Nat} {d : Declaration}

/-- Another node is settled. -/
theorem advance (hs : w.Between visible s) (hj : w.declarations.entries[j]? = some d)
    (ht : w.Advance s t new) (hnodup : new.Nodup) (hfirst : ∀ x ∈ new, x ∉ s.defined)
    (hdeclared : ∀ x ∈ new, x ∈ w.declarations.names) (hd : d.name ∈ t.defined)
    (hwheel : (∀ i, Untouched t (w.name i)) ∨ w.Turned t.defined) :
    w.Between (j :: visible) t where
  failed := ht.failed.trans hs.failed
  values i := (ht.values i).trans (hs.values i)
  topLevel := (congrArg Scopes.topLevel ht.scopes).trans hs.topLevel
  diagnostics := ht.diagnostics.trans hs.diagnostics
  inProgress := ht.inProgress.trans hs.inProgress
  nodup := by
    rw [ht.defined]
    exact hs.nodup.append hnodup (fun x hx hnew => hfirst x hnew hx)
  declared x hx := by
    rw [ht.defined] at hx
    exact (List.mem_append.mp hx).elim (hs.declared x) (hdeclared x)
  settled k hk x hx := by
    obtain rfl | hk := List.mem_cons.mp hk
    · rw [Declarations.getElem?_names hj] at hx
      rwa [← Option.some.inj hx]
    · rw [ht.defined]
      exact List.mem_append_left _ (hs.settled k hk x hx)
  wheel := hwheel

/-- A declaration that was settled on the way is left alone. -/
theorem settle_of_mem (hs : w.Between visible s) (hj : w.declarations.entries[j]? = some d)
    (hmem : d.name ∈ s.defined) :
    Succeeds (analyzeWithin (w.context e) (depth + 1) d) s
      (fun _ t => w.Between (j :: visible) t) :=
  .settle_of_mem hmem
    (hs.advance hj (.refl w) List.nodup_nil (by simp) (by simp) hmem hs.wheel)

/-- A built-in of the schedule is settled, and the wheel is as it was. -/
theorem settle_builtin {b : Builtin} (hs : w.Between visible s)
    (hj : w.declarations.entries[j]? = some (.builtin b)) :
    Succeeds (analyzeWithin (w.context e) (depth + 1) (.builtin b)) s
      (fun _ t => w.Between (j :: visible) t) := by
  by_cases hmem : b.name ∈ s.defined
  · exact hs.settle_of_mem hj hmem
  refine (w.settle_builtin hs.toCalm hs.inProgress hmem).imp ?_
  rintro _ t ⟨ht, htypes⟩
  have hname : b.name ∈ w.declarations.names :=
    List.mem_map.mpr ⟨.builtin b, List.mem_of_getElem? hj, rfl⟩
  refine hs.advance hj ht (List.nodup_singleton _) (fun x hx => List.mem_singleton.mp hx ▸ hmem)
    (fun x hx => List.mem_singleton.mp hx ▸ hname) ?_ ?_
  · rw [ht.defined]
    exact List.mem_append_right _ List.mem_cons_self
  · obtain hfresh | ⟨y, hy, hnext, hinfix⟩ := hs.wheel
    · refine .inl (fun i => ?_)
      obtain ⟨hdefined, hprogress, hnone⟩ := hfresh i
      refine ⟨?_, ht.inProgress ▸ hprogress, (htypes i).trans hnone⟩
      rw [ht.defined, List.mem_append, List.mem_singleton, not_or]
      exact ⟨hdefined, w.fresh i b⟩
    · rw [Turned, ht.defined]
      exact .inr ⟨y, hy, hnext, hinfix.trans (List.prefix_append ..).isInfix⟩

/-- The first declaration of the wheel takes the others along, provided that it
is a function and the next is one. -/
theorem settle_item {i : Fin (n + 1)} (hs : w.Between visible s)
    (hj : w.declarations.entries[j]? = some (.source (w.item i))) (hdepth : n ≤ depth)
    (hf : w.name (next i) ∉ s.defined → w.isFunction i = true ∧ w.isFunction (next i) = true) :
    Succeeds (analyzeWithin (w.context e) (depth + 1) (.source (w.item i))) s
      (fun _ t => w.Between (j :: visible) t) := by
  obtain hfresh | ⟨y, -, -, hinfix⟩ := hs.wheel
  · -- the wheel is entered here, and gone around at once
    obtain ⟨hi, hnext⟩ := hf (hfresh (next i)).1
    refine (w.settle_function hdepth hi hs.toCalm hfresh).imp (fun _ t ht => ?_)
    have hsuffix : w.before i (n + 1) <:+ t.defined := ht.defined ▸ List.suffix_append ..
    refine hs.advance hj ht (w.nodup_before i (le_refl _)) ?_ ?_ ?_
      (.inr ⟨i, hi, hnext, hsuffix.isInfix⟩)
    · intro x hx
      obtain ⟨k, rfl⟩ := w.exists_of_mem_before hx
      exact (hfresh k).1
    · intro x hx
      obtain ⟨k, rfl⟩ := w.exists_of_mem_before hx
      exact w.mem_names k
    · exact w.name_item i ▸ hsuffix.subset (w.mem_before i i)
  · exact hs.settle_of_mem hj (w.name_item i ▸ hinfix.subset (w.mem_before y i))

/-- **One node of the schedule** is settled, with what it requires before it. -/
theorem analyze (hs : w.Between visible s) (hj : w.declarations.entries[j]? = some d)
    (hvisible : ∀ k ∈ (Compile.stageGraph w.declarations).dependencies .requires j, k ∈ visible) :
    Succeeds (analyze (w.context e) d) s (fun _ t => w.Between (j :: visible) t) := by
  have hcount : (w.context e).declarations.count = 9 + n + 1 := by
    show (Builtin.all.map Declaration.builtin
      ++ (List.ofFn w.item).map Declaration.source).length = _
    rw [List.length_append, List.length_map, List.length_map, List.length_ofFn]
    rfl
  rw [Analysis.analyze, hcount]
  obtain ⟨b, rfl⟩ | ⟨i, rfl⟩ := w.mem_entries.mp (List.mem_of_getElem? hj)
  · exact hs.settle_builtin hj
  · refine hs.settle_item hj (Nat.le_add_left n 9) (fun hnext => ?_)
    by_contra hreq
    -- the next declaration is required, and so it was settled before
    obtain ⟨k, hk⟩ := Declarations.exists_index?_of_mem_names (w.mem_names (next i))
    have hedge := w.edge_iff.mpr ⟨rfl, i, rfl, rfl, hreq⟩
    have hji : w.declarations.index? (w.name i) = some j := by
      rw [Declarations.index?_eq_some_iff, Declarations.getElem?_names hj, name_item]
    have hmem := hvisible k
      (Dependencies.mem_dependencies_stageGraph.mpr ⟨_, _, hji, hk, hedge⟩)
    exact hnext (hs.settled k hmem _ (Declarations.index?_eq_some_iff.mp hk))

/-- **All nodes of the schedule** are settled, one after the other. -/
theorem settleAll {order : List Nat} (hs : w.Between visible s)
    (horder : (Compile.stageGraph w.declarations).InOrder visible order)
    (hsize : ∀ j ∈ order, j < w.declarations.count) :
    Succeeds (Compile.settleAll (w.context e) (Compile.stageGraph w.declarations) order) s
      (fun _ t => w.Between (order.reverse ++ visible) t) := by
  -- the induction is on the nodes that are left, and `visible` are those that are done
  induction order generalizing visible s with
  | nil => exact .pure hs
  | cons j order ih =>
    obtain ⟨d, hd⟩ : ∃ d, w.declarations.entries[j]? = some d :=
      ⟨_, List.getElem?_eq_getElem (hsize j List.mem_cons_self)⟩
    have hfind : ((Compile.stageGraph w.declarations).node? j >>= (·.declaration)
        >>= w.declarations.find?) = some d := by
      rw [Compile.stageGraph, Dependencies.node?_stageGraph, hd]
      exact Declarations.find?_eq_some_iff.mpr ⟨List.mem_of_getElem? hd, rfl⟩
    rw [Compile.settleAll, List.forM_eq_forM, List.forM_cons, List.reverse_cons, List.append_assoc]
    refine .bind ?_
    rw [show (w.context e).declarations = w.declarations from rfl, hfind]
    refine (hs.analyze hd horder.1).imp (fun _ t ht => ?_)
    exact ih ht horder.2 (fun k hk => hsize k (List.mem_cons_of_mem _ hk))

/-- Once all nodes are settled, all declarations are defined. -/
theorem conclude {schedule : Stage.Schedule} (hs : w.Between visible s)
    (hvisible : ∀ j < w.declarations.count, j ∈ visible) :
    ∃ c, Compile.conclude (w.context e) (Compile.stageGraph w.declarations) schedule s = .ok c ∧
      w.Turned c.order := by
  have hall : ∀ x ∈ w.declarations.names, x ∈ s.defined := by
    intro x hx
    obtain ⟨j, hj⟩ := Declarations.exists_index?_of_mem_names hx
    exact hs.settled j (hvisible j (Declarations.index?_lt_count hj)) x
      (Declarations.index?_eq_some_iff.mp hj)
  -- what is defined is what is declared, each once, so that the numbers agree
  have hperm : s.defined.Perm w.declarations.names :=
    (List.perm_ext_iff_of_nodup hs.nodup w.declarations.distinct).mpr
      (fun x => ⟨hs.declared x, hall x⟩)
  have hlength : s.defined.length + s.failed.length = (w.context e).declarations.count := by
    rw [hperm.length_eq, hs.failed]
    exact List.length_map _
  rw [Compile.conclude, if_neg (not_not.mpr hlength), hs.diagnostics]
  exact ⟨_, rfl, hs.wheel.resolve_left (fun hfresh => (hfresh 0).1 (hall _ (w.mem_names 0)))⟩

end Between

/-- The analysis begins with the built-ins in the outermost scope. -/
theorem exists_rootScopes (b : Buffer ε) :
    ∃ scopes, Compile.rootScopes ((w.context e).start b).scopes = .ok scopes ∧
      w.Between [] { (w.context e).start b with scopes } := by
  refine ⟨_, rfl, ?_⟩
  exact
    { failed := rfl, values := fun _ => rfl, topLevel := rfl, diagnostics := rfl, inProgress := rfl
      nodup := List.nodup_nil, declared := fun _ h => absurd h List.not_mem_nil
      settled := fun _ h => absurd h List.not_mem_nil
      wheel := .inl (fun _ => ⟨List.not_mem_nil, List.not_mem_nil, rfl⟩) }

/-- **A wheel with two functions in a row compiles.** -/
theorem exists_compile_eq_ok {p : Fin (n + 1)} (hp : w.isFunction p = true)
    (hp' : w.isFunction (next p) = true) :
    ∃ c, compile w.module {} = .ok c ∧ w.Turned c.order := by
  obtain ⟨schedule, hschedule⟩ := w.exists_schedule hp hp'
  have hruns := Stage.Graph.runs_of_schedule_eq_ok hschedule
  have horder : ∀ j, j ∈ schedule.order ↔ j < w.declarations.count := by
    intro j
    rw [← Dependencies.size_stageGraph, ← Stage.Graph.mem_indices]
    exact hruns.perm.mem_iff
  obtain ⟨scopes, hscopes, hbegin⟩ := w.exists_rootScopes (e := none) { evaluator := () }
  obtain ⟨⟨⟩, t, hsettle, ht⟩ :=
    hbegin.settleAll (e := none) hruns.inOrder (fun j hj => (horder j).mp hj)
  obtain ⟨c, hc, hturned⟩ := ht.conclude (e := none)
    (fun j hj => List.mem_append_left _ (List.mem_reverse.mpr ((horder j).mpr hj)))
  exact ⟨c, (Compile.result_compileWith w.collect_module hschedule hscopes hsettle).trans hc,
    hturned⟩

/-- A wheel of any kinds of declarations, the names of which are as long as it
takes. -/
def ofKinds (isFunction : Fin (n + 1) → Bool) : Wheel n where
  name i := String.ofList (List.replicate (i.val + 1) 'x')
  isFunction
  injective i j h := by
    have hlength := congrArg List.length (String.ofList_injective h)
    rw [List.length_replicate, List.length_replicate] at hlength
    exact Fin.ext (Nat.succ.inj hlength)
  fresh i b h := by
    have hchars := congrArg String.toList h
    rw [String.toList_ofList, List.replicate_succ] at hchars
    cases b <;> exact absurd (List.cons.inj hchars).1 (by decide)

end Wheel

/-! ## Which circuits are refused -/

namespace Dependencies

/-- **What depends on itself is refused unless it is hidden.** To depend on
itself is to lie on a circuit. A module with a circuit that is not hidden is
refused for a cycle, by every backend and with all options, and the backend
hears nothing of it. But for a circuit that is hidden, constants on it or not,
there is a plain module with a circuit of the same shape that compiles.

The schedule keeps all uses but those of a function as a value in a function. A
circuit without any such use is still one in the stage graph, and there is no
order for it. A circuit with one of them can be cut there, and what is left is
settled from the cut on. -/
theorem circular_refused_unless_hidden (m : Source.Module) (ds : Declarations)
    (hm : Declarations.collect m = .ok ds) :
    (∀ x, TransGen ((collect ds).DependsOn ds) x x ↔
      ∃ (n : Nat) (shape : Fin (n + 1) → Turn) (names : Fin (n + 1) → String),
        (collect ds).IsCircuit ds shape names ∧ names 0 = x) ∧
    ∀ (n : Nat) (shape : Fin (n + 1) → Turn) (names : Fin (n + 1) → String),
      (collect ds).IsCircuit ds shape names →
        (¬Hidden shape → ∀ (β : Type) (backend : Backend β) (b : β) (options : Options), ∃ cycle,
          compileWith m backend b options
            = { result := .error (.fatal (.cycle cycle)), backend := b }) ∧
        (Hidden shape → ∃ (m' : Source.Module) (ds' : Declarations) (names' : Fin (n + 1) → String),
          (∀ item ∈ m', item.isPlain = true) ∧ Declarations.collect m' = .ok ds' ∧
            (collect ds').IsCircuit ds' shape names' ∧ ∃ c, compile m' {} = .ok c) := by
  refine ⟨fun x => ⟨exists_isCircuit, ?_⟩, fun n shape names hcircuit => ⟨?_, ?_⟩⟩
  · rintro ⟨n, shape, names, hcircuit, rfl⟩
    exact hcircuit.transGen 0
  · intro hshape β backend b options
    obtain ⟨cycle, hcycle⟩ := schedule_eq_error_of_isCircuit hcircuit hshape
    exact ⟨cycle, Compile.compileWith_of_schedule_eq_error hm hcycle⟩
  · rintro ⟨hvalue, p, hp, hp'⟩
    let w := Wheel.ofKinds fun i => (shape i).isFunction
    have hw : w.shape = shape := funext fun i => by
      show Turn.mk (shape i).isFunction .value = shape i
      rw [← hvalue i]
    obtain ⟨c, hc, -⟩ := w.exists_compile_eq_ok hp hp'
    refine ⟨w.module, w.declarations, w.name, fun item hitem => ?_, w.collect_module,
      hw ▸ w.isCircuit, c, hc⟩
    obtain ⟨i, rfl⟩ := List.mem_ofFn.mp hitem
    exact w.isPlain_item i

/-- Two constants with the value of each other. -/
def mirrors : Wheel 1 where
  name i := if i = 0 then "a" else "b"
  isFunction _ := false
  injective := by decide
  fresh i b := by cases b <;> revert i <;> decide

/-- Each of the two depends on itself, and the module is refused for a cycle. -/
theorem mirrors_refused :
    TransGen ((collect mirrors.declarations).DependsOn mirrors.declarations) "a" "a" ∧
      ∃ cycle, compile mirrors.module {} = .error (.fatal (.cycle cycle)) := by
  obtain ⟨hcircular, hrefused⟩ :=
    circular_refused_unless_hidden mirrors.module mirrors.declarations mirrors.collect_module
  have hshape : ¬Hidden mirrors.shape := fun ⟨_, i, hi, _⟩ => Bool.false_ne_true hi
  obtain ⟨cycle, hcycle⟩ := (hrefused 1 _ _ mirrors.isCircuit).1 hshape _ (Buffer.backend none)
    { evaluator := () } {}
  exact ⟨(hcircular "a").mpr ⟨1, _, _, mirrors.isCircuit, rfl⟩, cycle,
    congrArg Outcome.result hcycle⟩

end Dependencies

/-- A constant that is computed by a function, which calls another, which uses
the constant. -/
def ouroboros : Source.Module :=
  [.function
    { span := .nowhere, name := .unplaced "f", params := [], result := .tuple .nowhere []
      body := .ofExpr (.call .nowhere (.var (.unplaced "g")) []) },
    .function
    { span := .nowhere, name := .unplaced "g", params := [], result := .tuple .nowhere []
      body := .ofExpr (.var (.unplaced "c")) },
    .constant
    { span := .nowhere, name := .unplaced "c", ascription := .tuple .nowhere []
      body := .ofExpr (.call .nowhere (.var (.unplaced "f")) []) }]

/-- It is a wheel. -/
def ouroborosWheel : Wheel 2 where
  name i := match i with | 0 => "f" | 1 => "g" | 2 => "c"
  isFunction i := i ≠ 2
  injective := by decide
  fresh i b := by cases b <;> revert i <;> decide

/-- **A circular constant that is accepted**, and defined before the function it
is computed by. -/
theorem ouroboros_compiles :
    (∀ item ∈ ouroboros, item.isPlain = true) ∧
      (∃ ds, Declarations.collect ouroboros = .ok ds ∧ ds.isFunction "c" = false ∧
        TransGen ((Dependencies.collect ds).DependsOn ds) "c" "c") ∧
      ∃ c, compile ouroboros {} = .ok c ∧ ["c", "g", "f"] <:+: c.order := by
  have hmodule : ouroborosWheel.module = ouroboros := rfl
  refine ⟨by decide, ⟨ouroborosWheel.declarations, ouroborosWheel.collect_module,
    ouroborosWheel.isFunction_declarations 2, ouroborosWheel.isCircuit.transGen 2⟩, ?_⟩
  obtain ⟨c, hc, y, hy, hnext, hinfix⟩ := ouroborosWheel.exists_compile_eq_ok (p := 0) rfl rfl
  -- only the first is a function that uses a function
  have hfirst : ∀ y, ouroborosWheel.isFunction y = true →
      ouroborosWheel.isFunction (next y) = true → y = 0 := by decide
  obtain rfl := hfirst y hy hnext
  exact ⟨c, hmodule ▸ hc, hinfix⟩

end Stagewise
