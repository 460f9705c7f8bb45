import Stagewise.Proofs.Analysis.Steps
import Stagewise.Proofs.Dependency.Circuit

/-!
# Wheels

A **wheel** is a module in which every declaration uses the next one, as a
value, and nothing else, and the last uses the first. Constants and functions
may follow each other on it in any way. A function is used by calling it, so
that the value of every constant on a wheel is computed from itself.

The analysis is not disturbed by that. It settles the next declaration before
the one that uses it, and so it goes around the wheel, back to where it began,
where one of two things happens. A constant has not published its type by then,
and the analysis stops. But a function has, and that is all that is asked of it:
`Wheel.settle_function` says that a wheel that is entered at a function is
settled in one turn, all of it, from the declaration before that function
backwards. The induction is on how much of the turn is left.
-/

namespace Stagewise

open Analysis Circuit
open Source (Invocation)

/-- **A wheel** of `n + 1` declarations. -/
structure Wheel (n : Nat) where
  /-- Their names. -/
  name : Fin (n + 1) → String
  /-- Which of them are functions. The others are constants. -/
  isFunction : Fin (n + 1) → Bool
  /-- The names are distinct. -/
  injective : Function.Injective name
  /-- No name is that of a built-in. -/
  fresh : ∀ i b, name i ≠ Builtin.name b

namespace Wheel

variable {n : Nat} (w : Wheel n) {i : Fin (n + 1)}

/-! ## The module -/

/-- How a declaration is used: a function is called. -/
def reference (i : Fin (n + 1)) : Source.Expr Invocation :=
  if w.isFunction i then .call .nowhere (.var (.unplaced (w.name i))) []
  else .var (.unplaced (w.name i))

/-- **A declaration of the wheel.** Its type is written as the empty tuple. -/
def item (i : Fin (n + 1)) : Source.Item :=
  if w.isFunction i then
    .function
      { span := .nowhere, name := .unplaced (w.name i), params := []
        result := .tuple .nowhere [], body := .ofExpr (w.reference (next i)) }
  else
    .constant
      { span := .nowhere, name := .unplaced (w.name i)
        ascription := .tuple .nowhere [], body := .ofExpr (w.reference (next i)) }

/-- The type of a declaration. -/
def ty (i : Fin (n + 1)) : Ty := if w.isFunction i then .functionOf [] .unit else .unit

/-- **The module of a wheel.** -/
def module : Source.Module := List.ofFn w.item

/-- A declaration of a wheel has the name that belongs to its place. -/
theorem name_item (i : Fin (n + 1)) : (Declaration.source (w.item i)).name = w.name i := by
  unfold item
  split <;> rfl

/-- The names on a wheel are different, and none is that of a built-in. -/
theorem distinct_names : ((Declarations.entriesOf w.module).map Declaration.name).Nodup := by
  have hnames : Declaration.name ∘ Declaration.source ∘ w.item = w.name := funext w.name_item
  rw [Declarations.entriesOf, List.map_append, List.map_map, List.map_map, module, List.map_ofFn,
    Function.comp_assoc, hnames]
  refine List.Nodup.append (by decide) (List.nodup_ofFn.mpr w.injective) ?_
  rintro x hb hx
  obtain ⟨b, -, rfl⟩ := List.mem_map.mp hb
  obtain ⟨i, hi⟩ := List.mem_ofFn.mp hx
  exact w.fresh i b hi

/-- Its declarations. -/
def declarations : Declarations :=
  .ofEntries (Declarations.entriesOf w.module)
    ((Register.isEmpty_errors_iff _).mpr w.distinct_names)

theorem collect_module : Declarations.collect w.module = .ok w.declarations := dif_pos _

/-- The declarations of the module are the built-ins and those of the wheel. -/
theorem mem_entries {d : Declaration} :
    d ∈ w.declarations.entries ↔ (∃ b, d = .builtin b) ∨ ∃ i, d = .source (w.item i) := by
  have hall : ∀ b, b ∈ Builtin.all := fun b => by cases b <;> decide
  show d ∈ Builtin.all.map Declaration.builtin ++ (List.ofFn w.item).map Declaration.source ↔ _
  rw [List.mem_append, List.mem_map, List.map_ofFn, List.mem_ofFn]
  simp only [hall, true_and, Function.comp_apply, eq_comm]

/-- Each is found by its name. -/
theorem find?_name (i : Fin (n + 1)) :
    w.declarations.find? (w.name i) = some (.source (w.item i)) :=
  Declarations.find?_eq_some_iff.mpr ⟨w.mem_entries.mpr (.inr ⟨i, rfl⟩), w.name_item i⟩

theorem mem_names (i : Fin (n + 1)) : w.name i ∈ w.declarations.names :=
  List.mem_map.mpr ⟨.source (w.item i), w.mem_entries.mpr (.inr ⟨i, rfl⟩), w.name_item i⟩

/-! ## Using a declaration -/

variable {ε : Type}

/-- A wheel is analyzed for a backend that keeps the program in memory. -/
def context (e : Option (Evaluator ε)) : Context (Buffer ε) :=
  ⟨w.declarations, {}, Buffer.backend e⟩

variable {e : Option (Evaluator ε)} {demand : String → Check (Buffer ε) Ty}
  {s t : State (Buffer ε)} {new : List String}

/-- The empty tuple of types is the type of the empty tuple. -/
theorem ascribed_unit {P : Ty → State (Buffer ε) → Prop}
    (hP : P .unit { s with
      moments := s.now :: s.moments
      foldings := s.foldings ++ [(⟨.nowhere, .type, .tuple []⟩, .type .unit)] }) :
    Succeeds (ascribed (w.context e) .nowhere
      (infer (w.context e) demand (expand (w.context e) demand) (.tuple .nowhere []) (some .type)))
      s P :=
  .of_eq_ok rfl hP

/-- In the body of a declaration, the names of the module refer to
declarations. -/
theorem get_isolated {scopes : Scopes} (hi : w.name i ∈ scopes.topLevel) :
    ∃ inner, scopes.isolated.push.push.get (w.name i)
      = some (.global (w.name i), { scopes.isolated with inner }) := by
  have hresolve : scopes.isolated.push.push.resolve (w.name i) = some (.global (w.name i)) := by
    simp [Scopes.resolve, Scopes.resolveIn, Scopes.push, Scopes.isolated, Scope.own?, Scope.find?,
      Scopes.rootBinding, hi]
  rw [Scopes.get, hresolve]
  exact ⟨_, rfl⟩

/-- What a declaration is used for is a unit, and it does not fold as long as
the declaration has no value. -/
theorem infer_reference {scopes : Scopes} {hint : Option Ty} {P : Term → State (Buffer ε) → Prop}
    (hget : s.scopes.get (w.name i) = some (.global (w.name i), scopes))
    (h : Succeeds (demand (w.name i)) { s with
        scopes
        resolutions := s.resolutions ++ [⟨s.active.head?, w.name i, .global (w.name i)⟩]
        moments := s.now :: s.moments }
      (fun ty t => ty = w.ty i ∧ ∀ term : Term, term.ty = .unit →
        (t.values.lookup (w.name i) = none → Fold.term t.values term = none) → P term t)) :
    Succeeds (infer (w.context e) demand (expand (w.context e) demand) (w.reference i) hint)
      s P := by
  have hnot : Builtin.ofName? (w.name i) = none :=
    List.find?_eq_none.mpr (fun b _ => by simpa using (w.fresh i b).symm)
  unfold reference
  cases hf : w.isFunction i with
  | true =>
    rw [if_pos rfl, infer]
    refine .bind ?_
    rw [infer]
    refine .bind (.typeOf hget (h.imp ?_))
    rintro _ t ⟨rfl, hP⟩
    refine .pure ?_
    rw [ty, if_pos hf]
    refine .bind (.pure (.pure (hP _ rfl (fun _ => ?_))))
    -- a call folds only if a built-in is called
    simp [Fold.term, Fold.node, Fold.builtin?, hnot]
  | false =>
    rw [if_neg Bool.false_ne_true, infer]
    refine .bind (.typeOf hget (h.imp ?_))
    rintro _ t ⟨rfl, hP⟩
    refine .pure (hP _ (if_neg (by simp [hf])) (fun hknown => ?_))
    simpa [Fold.term, Fold.node] using hknown

/-- **The body of a declaration uses the next one and does nothing else.** It is
checked if the next one can be had, and comes to a unit. -/
theorem checkBlock_reference {scopes : Scopes} {hint : Option Ty}
    {P : Term.Block → State (Buffer ε) → Prop}
    (hget : s.scopes.push.get (w.name i) = some (.global (w.name i), scopes))
    (h : Succeeds (demand (w.name i)) { s with
        scopes
        resolutions := s.resolutions ++ [⟨s.active.head?, w.name i, .global (w.name i)⟩]
        moments := s.now :: s.moments }
      (fun ty t => ty = w.ty i ∧ ∀ b : Term.Block, b.ty = .unit →
        (t.values.lookup (w.name i) = none → Fold.block t.values b = none) →
          P b { t with scopes := t.scopes.pop })) :
    Succeeds (checkBlock (w.context e) demand (expand (w.context e) demand)
      (.ofExpr (w.reference i)) hint) s P := by
  rw [Source.Block.ofExpr, checkBlock]
  refine .bind (.inScope ?_)
  rw [checkStmts, checkStmt]
  refine .bind (.bind (w.infer_reference hget (h.imp ?_)))
  rintro _ t ⟨hty, hP⟩
  refine ⟨hty, fun term hterm hfold => .pure (.bind (.pure (.pure (.pure ?_))))⟩
  refine hP _ hterm (fun hknown => ?_)
  simpa [Fold.block, Fold.sole, Fold.stmt] using hfold hknown

/-! ## One declaration -/

/-- **The analysis goes on** from one state to another, where it is back in the
same place, with `new` defined meanwhile. -/
structure Advance (s t : State (Buffer ε)) (new : List String) : Prop where
  defined : t.defined = s.defined ++ new
  failed : t.failed = s.failed
  diagnostics : t.diagnostics = s.diagnostics
  inProgress : t.inProgress = s.inProgress
  scopes : t.scopes = s.scopes
  /-- What was published stays so. -/
  types : ∀ i ty, s.types.lookup (w.name i) = some ty → t.types.lookup (w.name i) = some ty
  /-- Nothing on the wheel gets a value. -/
  values : ∀ i, t.values.lookup (w.name i) = s.values.lookup (w.name i)

theorem Advance.refl : w.Advance s s [] where
  defined := (List.append_nil _).symm
  failed := rfl
  diagnostics := rfl
  inProgress := rfl
  scopes := rfl
  types _ _ h := h
  values _ := rfl

/-- **A declaration is entered**: in the second state it is about to use the
next. A function has published its type, and the type of a constant is being
computed. -/
structure Entered (i : Fin (n + 1)) (s t : State (Buffer ε)) : Prop where
  defined : t.defined = s.defined
  failed : t.failed = s.failed
  diagnostics : t.diagnostics = s.diagnostics
  values : t.values = s.values
  topLevel : t.scopes.topLevel = s.scopes.topLevel
  types : t.types = if w.isFunction i then (w.name i, w.ty i) :: s.types else s.types
  inProgress : t.inProgress = if w.isFunction i then s.inProgress else w.name i :: s.inProgress

/-- Nothing has been done about a declaration. -/
def Untouched (s : State (Buffer ε)) (x : String) : Prop :=
  x ∉ s.defined ∧ x ∉ s.inProgress ∧ s.types.lookup x = none

/-- Nothing is refused, no value on the wheel is known, and its names are in
sight. -/
structure Calm (s : State (Buffer ε)) : Prop where
  failed : s.failed = []
  values : ∀ i, s.values.lookup (w.name i) = none
  topLevel : s.scopes.topLevel = w.declarations.names

namespace Entered

variable {w}

/-- Nothing is refused when a declaration is entered, and no value becomes
known. -/
theorem calm (h : w.Entered i s t) (hs : w.Calm s) : w.Calm t where
  failed := h.failed.trans hs.failed
  values i := h.values ▸ hs.values i
  topLevel := h.topLevel.trans hs.topLevel

/-- A function has its type published when it comes to its body. -/
theorem lookup_self (h : w.Entered i s t) (hf : w.isFunction i = true) :
    t.types.lookup (w.name i) = some (w.ty i) := by
  rw [h.types, if_pos hf, List.lookup_cons_self]

/-- Nothing is published of the others. -/
theorem lookup_of_ne (h : w.Entered i s t) {x : String} (hne : x ≠ w.name i) :
    t.types.lookup x = s.types.lookup x := by
  rw [h.types]
  split
  · rw [List.lookup_cons, beq_false_of_ne hne]
  · rfl

/-- The other declarations are left alone. -/
theorem untouched (h : w.Entered i s t) {x : String} (hne : x ≠ w.name i) (hx : Untouched s x) :
    Untouched t x := by
  obtain ⟨hdefined, hprogress, hnone⟩ := hx
  refine ⟨h.defined ▸ hdefined, ?_, (h.lookup_of_ne hne).trans hnone⟩
  rw [h.inProgress]
  split
  · exact hprogress
  · exact List.not_mem_cons_of_ne_of_not_mem hne hprogress

/-- A declaration that is entered is left with nothing changed but what was
defined meanwhile. -/
theorem advance {u : State (Buffer ε)} (h : w.Entered i s t) (hnew : Untouched s (w.name i))
    (hu : w.Advance t u new) :
    w.Advance s { u with scopes := s.scopes, inProgress := u.inProgress.erase (w.name i) } new := by
  obtain ⟨-, hprogress, hnone⟩ := hnew
  refine
    { defined := by rw [hu.defined, h.defined]
      failed := hu.failed.trans h.failed
      diagnostics := hu.diagnostics.trans h.diagnostics
      inProgress := ?_
      scopes := rfl
      types := fun j ty hj => hu.types j ty ?_
      values := fun j => (hu.values j).trans (by rw [h.values]) }
  · show u.inProgress.erase (w.name i) = s.inProgress
    rw [hu.inProgress, h.inProgress]
    split
    · exact List.erase_of_not_mem hprogress
    · exact List.erase_cons_head ..
  · have hne : w.name j ≠ w.name i := fun heq => by simp [← heq, hj] at hnone
    rwa [h.lookup_of_ne hne]

end Entered

/-- **One declaration is settled** if the next one can be had where it is used.

The declaration is followed through its steps: it is marked, its type is
ascribed as the empty tuple, it is declared, its body is checked, and it is
defined. At the body it depends on the next declaration, and everything else
succeeds by itself. A function and a constant differ in when the type is
published, and this is what `Entered` says of the moment at which the next one
is used. -/
theorem settle_item (hs : w.Calm s) (hnew : Untouched s (w.name i)) (hself : w.name i ∉ new)
    (h : ∀ t, w.Entered i s t → Succeeds (demand (w.name (next i))) t
      (fun ty u => ty = w.ty (next i) ∧ w.Advance t u new)) :
    Succeeds (settle (w.name i) (examine (w.context e) demand (.source (w.item i)))) s
      (fun _ t => t.types.lookup (w.name i) = some (w.ty i) ∧
        w.Advance s t (new ++ [w.name i])) := by
  -- what is known when the next declaration is settled, said of the state before this one
  have hback : ∀ t, w.Entered i s t → Succeeds (demand (w.name (next i))) t (fun ty u =>
      ty = w.ty (next i) ∧
        w.Advance s { u with scopes := s.scopes, inProgress := u.inProgress.erase (w.name i) } new ∧
          (w.isFunction i = true → u.types.lookup (w.name i) = some (w.ty i))) :=
    fun t ht => (h t ht).imp (fun _ u hu =>
      ⟨hu.1, ht.advance hnew hu.2, fun hf => hu.2.types i _ (ht.lookup_self hf)⟩)
  obtain ⟨hdefined, hprogress, hnone⟩ := hnew
  obtain ⟨inner, hget⟩ := w.get_isolated (hs.topLevel ▸ w.mem_names (next i))
  have hmark : s.inProgress.insert (w.name i) = w.name i :: s.inProgress :=
    List.insert_of_not_mem hprogress
  refine .settle (by simp [hdefined, hs.failed]) ?_
  unfold item
  cases hf : w.isFunction i with
  | true =>
    rw [if_pos rfl, examine]
    unfold examineFunction
    refine .bind (.modify (.bind (.pure (.bind (w.ascribed_unit (.bind (.modify ?_)))))))
    refine .bind (.modify (.bind (.declare rfl (.bind (.inScope (.bind (.pure ?_)))))))
    refine w.checkBlock_reference hget ((hback _ ?_).imp ?_)
    · -- the type is out, and the mark is gone, before the body is checked
      exact
        { defined := rfl, failed := rfl, diagnostics := rfl, values := rfl, topLevel := rfl
          types := by simp [hf, ty, Name.unplaced]
          inProgress := by simp [hf, Name.unplaced, hmark] }
    · rintro _ u ⟨rfl, hu, hlookup⟩
      have hlist : u.defined = s.defined ++ new := hu.defined
      have hfirst : w.name i ∉ u.defined := by simp [hlist, hdefined, hself]
      refine ⟨rfl, fun b hb _ => .bind (.expect hb ?_)⟩
      -- a declaration of the wheel may well be the entry point
      rw [if_neg (by simp [Ty.entryPoint])]
      refine .define rfl hfirst ⟨hlookup hf, ?_⟩
      exact { hu with defined := by simp [hlist, Name.unplaced] }
  | false =>
    rw [if_neg Bool.false_ne_true, examine]
    unfold examineConstant
    refine .bind (.modify (.bind (w.ascribed_unit (.bind (.declare rfl (.bind (.inScope ?_)))))))
    refine w.checkBlock_reference hget ((hback _ ?_).imp ?_)
    · -- the mark is there, and stays until the constant is left
      exact
        { defined := rfl, failed := rfl, diagnostics := rfl, values := rfl, topLevel := rfl
          types := by simp [hf]
          inProgress := by simpa [hf, Name.unplaced] using hmark }
    · rintro _ u ⟨rfl, hu, -⟩
      have hlist : u.defined = s.defined ++ new := hu.defined
      have hfirst : w.name i ∉ u.defined := by simp [hlist, hdefined, hself]
      have hvalue : u.values.lookup (w.name (next i)) = none := (hu.values _).trans (hs.values _)
      refine ⟨rfl, fun b hb hfold => .bind (.expect hb (.bind ?_))⟩
      refine .foldedBlock_of_none (hfold hvalue) (.bind (.define rfl hfirst (.modify ?_)))
      constructor
      · show List.lookup (w.name i) ((w.name i, Ty.unit) :: u.types) = some (w.ty i)
        rw [List.lookup_cons_self, ty, if_neg (by simp [hf])]
      · refine { hu with defined := by simp [hlist, Name.unplaced], types := fun j ty hj => ?_ }
        have hne : w.name j ≠ w.name i := fun heq => by simp [← heq, hj] at hnone
        show List.lookup (w.name j) ((w.name i, Ty.unit) :: u.types) = some ty
        rw [List.lookup_cons, beq_false_of_ne hne]
        exact hu.types j ty hj

/-! ## One turn -/

/-- The `k` declarations before `y`, backwards. -/
def before (y : Fin (n + 1)) (k : Nat) : List String :=
  (List.range k).map fun l => w.name (back y (l + 1))

/-- One declaration more is met, further back. -/
theorem before_succ (y : Fin (n + 1)) (k : Nat) :
    w.before y (k + 1) = w.before y k ++ [w.name (back y (k + 1))] := by
  rw [before, List.range_succ, List.map_append]
  rfl

theorem exists_of_mem_before {y : Fin (n + 1)} {k : Nat} {x : String} (hx : x ∈ w.before y k) :
    ∃ i, w.name i = x := by
  obtain ⟨l, -, rfl⟩ := List.mem_map.mp hx
  exact ⟨_, rfl⟩

/-- Within a turn no declaration is met twice. -/
theorem nodup_before (y : Fin (n + 1)) {k : Nat} (hk : k ≤ n + 1) : (w.before y k).Nodup := by
  have hle : ∀ l ∈ List.range k, l ≤ n := fun l hl =>
    Nat.le_of_lt_succ (Nat.lt_of_lt_of_le (List.mem_range.mp hl) hk)
  refine List.Nodup.map_on (fun l hl m hm heq => ?_) List.nodup_range
  have hback := w.injective heq
  rw [back_succ y l, back_succ y m] at hback
  exact back_inj (hle l hl) (hle m hm) hback

/-- Before the turn is over, the next declaration has not been met. -/
theorem not_mem_before {y : Fin (n + 1)} {k : Nat} (hk : k ≤ n) :
    w.name (back y (k + 1)) ∉ w.before y k := by
  have h := w.nodup_before y (Nat.succ_le_succ hk)
  rw [before_succ] at h
  exact fun hmem => List.disjoint_of_nodup_append h hmem List.mem_cons_self

/-- In a whole turn every declaration is met. -/
theorem mem_before (y i : Fin (n + 1)) : w.name i ∈ w.before y (n + 1) := by
  obtain ⟨k, hk, rfl⟩ := exists_back_eq (back y 1) i
  exact List.mem_map.mpr ⟨k, List.mem_range.mpr (Nat.lt_succ_of_le hk), by rw [back_succ]⟩

/-- **The rest of a turn.** If `y` has published its type and the `k`
declarations before it are untouched, then the first of these can be had.

The induction is on `k`. If there is nothing left to do before `y`, then it is
`y` that is used, and its type is there. Otherwise the declaration that is asked
for is untouched, so it is settled, and what it uses is the rest of the turn
with one declaration less. -/
theorem demand_back {y : Fin (n + 1)} {k depth : Nat} (hk : k ≤ n) (hdepth : k ≤ depth)
    (hs : w.Calm s) (hstart : s.types.lookup (w.name y) = some (w.ty y))
    (hahead : ∀ l, 0 < l → l ≤ k → Untouched s (w.name (back y l))) :
    Succeeds (demandWith (w.context e) (analyzeWithin (w.context e) depth) (w.name (back y k))) s
      (fun ty t => ty = w.ty (back y k) ∧ w.Advance s t (w.before y k)) := by
  induction k generalizing s depth with
  | zero =>
    rw [back_zero]
    exact .demandWith_of_published hstart ⟨rfl, .refl w⟩
  | succ k ih =>
    obtain ⟨depth, rfl⟩ := Nat.exists_eq_add_of_le' hdepth
    have hk' : k ≤ n := Nat.le_of_succ_le hk
    have hfresh := hahead (k + 1) (Nat.succ_pos k) (le_refl _)
    refine .demandWith_of_analyze hfresh.2.2 (by simp [hs.failed]) hfresh.2.1 (w.find?_name _) ?_
    rw [← Nat.add_assoc, analyzeWithin, name_item]
    refine (w.settle_item hs hfresh (w.not_mem_before hk') ?_).imp ?_
    · intro t ht
      rw [next_back_succ]
      -- what is still ahead, and `y` itself, are other declarations than this one
      have hother : ∀ l ≤ k, w.name (back y l) ≠ w.name (back y (k + 1)) :=
        fun l hl heq => Nat.ne_of_lt (Nat.lt_succ_of_le hl)
          (back_inj (hl.trans hk') hk (w.injective heq))
      refine ih hk' (Nat.le_add_left k depth) (ht.calm hs) ?_ ?_
      · have hy := hother 0 (Nat.zero_le k)
        rw [back_zero] at hy
        rwa [ht.lookup_of_ne hy]
      · exact fun l hpos hl => ht.untouched (hother l hl) (hahead l hpos (Nat.le_succ_of_le hl))
    · rintro _ t ⟨hlookup, ht⟩
      exact ⟨_, hlookup, rfl, w.before_succ y k ▸ ht⟩

/-- **A whole turn.** A function that is settled before the rest of the wheel
has the rest settled before itself. -/
theorem settle_function {y : Fin (n + 1)} {depth : Nat} (hdepth : n ≤ depth)
    (hf : w.isFunction y = true) (hs : w.Calm s) (hfresh : ∀ i, Untouched s (w.name i)) :
    Succeeds (analyzeWithin (w.context e) (depth + 1) (.source (w.item y))) s
      (fun _ t => w.Advance s t (w.before y (n + 1))) := by
  have hself := w.not_mem_before (y := y) (le_refl n)
  have hturn := w.before_succ y n
  rw [back_turn] at hself hturn
  rw [analyzeWithin, name_item, hturn]
  refine (w.settle_item hs (hfresh y) hself ?_).imp (fun _ _ ht => ht.2)
  -- the function itself is entered first, and has published its type when the turn comes to it
  intro t ht
  rw [next_eq_back]
  refine w.demand_back (le_refl n) hdepth (ht.calm hs) (ht.lookup_self hf) (fun l hpos hl => ?_)
  refine ht.untouched (fun heq => Nat.ne_of_gt hpos ?_) (hfresh _)
  refine back_inj (i := y) hl (Nat.zero_le n) ?_
  rw [back_zero]
  exact w.injective heq

end Wheel

end Stagewise
