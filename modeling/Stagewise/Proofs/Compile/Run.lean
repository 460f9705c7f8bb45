import Stagewise.Proofs.Analysis.Record
import Stagewise.Proofs.Analysis.References
import Stagewise.Proofs.Analysis.Settle
import Stagewise.Proofs.Dependency.StageGraph
import Stagewise.Proofs.Stage.Soundness

/-!
# The run of a compilation

A module with distinct names and a schedule has a `Plan`, and compiling it is to
settle the declarations of the schedule one after the other. Every other module
is refused, and the backend hears nothing of it.

The loop goes from its start by acts, either until it is through or until the
analysis crashes, and it never ends in any other way (`Plan.finishes`). So what
every act keeps holds in the end as it does in the beginning. If the loop gets
through then every declaration is settled, defined or refused, since each has a
place in the schedule.
-/

namespace Stagewise.Compile

open Analysis

variable {β : Type} {ctx : Context β} {m : Source.Module} {s t : State β}

/-! ## The loop -/

/-- **A declaration is settled**: it was defined or refused. -/
abbrev Settled (s : State β) (x : String) : Prop := x ∈ s.defined ∨ x ∈ s.failed

/-- What is settled stays settled. -/
theorem Settled.course {x : String} (h : Settled s x) (hc : Course ctx s t) : Settled t x :=
  h.imp (fun hx => (Course.grows hc).defined.subset hx) fun hx => (Course.grows hc).failed.subset hx

/-- **How a loop ends** that started in a state: it is through, with something
done, or the analysis crashes. -/
inductive Ends (ctx : Context β) (s : State β) (Q : State β → Prop) :
    EStateM.Result Halt (State β) Unit → Prop where
  | through {t : State β} (course : Course ctx s t) (idle : t.active = []) (done : Q t) :
    Ends ctx s Q (.ok () t)
  | crashed {u t : State β} {f : Fatal} (course : Course ctx s u) (crash : Crash ctx u f t) :
    Ends ctx s Q (.error (.fatal f) t)

theorem Ends.imp {Q Q' : State β → Prop} {r : EStateM.Result Halt (State β) Unit}
    (h : Ends ctx s Q r) (hQ : ∀ t, Course ctx s t → Q t → Q' t) : Ends ctx s Q' r := by
  cases h with
  | through course idle done => exact .through course idle (hQ _ course done)
  | crashed course crash => exact .crashed course crash

/-- **One loop after another.** The second one begins where nothing is under
analysis. -/
theorem Ends.bind {Q Q' : State β → Prop} {step : Check β Unit} {next : Unit → Check β Unit}
    (h : Ends ctx s Q (step s))
    (hnext : ∀ t, Course ctx s t → t.active = [] → Q t → Ends ctx t Q' (next () t)) :
    Ends ctx s Q' ((step >>= next) s) := by
  show Ends ctx s Q' (EStateM.bind step next s)
  unfold EStateM.bind
  match step s, h with
  | .ok () t, .through course idle done =>
    dsimp only
    match next () t, hnext t course idle done with
    | _, .through course' idle' done' => exact .through (course.trans course') idle' done'
    | _, .crashed course' crash => exact .crashed (course.trans course') crash
  | .error (.fatal f) t, .crashed course crash => exact .crashed course crash

/-- Between two rounds, what is not settled is untouched. -/
theorem standing_of_not_settled (hs : Checking ctx [] s) {x : String} (h : ¬Settled s x) :
    Standing ctx s x .untouched := by
  obtain ⟨p, hp⟩ := hs.book.standing x
  obtain ⟨hdefined, hfailed⟩ := not_or.mp h
  have hactive := hp.active
  rw [hs.active, hp.defined, hp.failed] at *
  cases p with
  | untouched => exact hp
  | _ => simp [Phase.isActive, Phase.isFailed] at hactive hdefined hfailed

/-- Nothing is done about what is settled. -/
theorem analyze_of_settled {d : Declaration} (hd : d ∈ ctx.declarations.entries)
    (h : Settled s d.name) : analyze ctx d s = .ok () s := by
  obtain ⟨n, hn⟩ := Nat.exists_eq_succ_of_ne_zero (List.length_pos_of_mem hd).ne'
  rw [analyze, Declarations.count, hn, analyzeWithin, settle, if_pos h]

/-- **One round**: a declaration is settled, if it is not settled yet. -/
theorem analyze_ends (hs : Checking ctx [] s) {d : Declaration}
    (hd : d ∈ ctx.declarations.entries) :
    Ends ctx s (fun t => Settled t d.name) (analyze ctx d s) := by
  by_cases hdone : Settled s d.name
  · rw [analyze_of_settled hd hdone]
    exact .through .refl hs.active hdone
  · have hsettles := analyzeWithin_settles ctx.declarations.count hs (fun x hx => by cases hx)
      (.unbidden hs.active) hd (standing_of_not_settled hs hdone) (Nat.le_add_right _ _)
    show Ends ctx s _ (analyzeWithin ctx ctx.declarations.count d s)
    generalize analyzeWithin ctx ctx.declarations.count d s = result at hsettles ⊢
    rcases result with ⟨⟨⟩, t⟩ | ⟨- | f, t⟩
    · obtain ⟨ht, hsettled, -⟩ := hsettles
      exact .through ht.course ht.active hsettled
    · exact hsettles.elim
    · obtain ⟨u, hu, ht⟩ := hsettles
      exact .crashed hu ht

/-- **The loop**: every declaration that comes up in it is settled. -/
theorem settleAll_ends {g : Stage.Graph} (order : List Nat) (hs : Checking ctx [] s)
    (hg : ∀ i, (g.node? i >>= (·.declaration) >>= ctx.declarations.find?)
      = ctx.declarations.entries[i]?) :
    Ends ctx s (fun t => ∀ i ∈ order, ∀ d ∈ ctx.declarations.entries[i]?, Settled t d.name)
      (settleAll ctx g order s) := by
  unfold settleAll
  induction order generalizing s with
  | nil => exact .through .refl hs.active fun i hi => by cases hi
  | cons i order ih =>
    rw [List.forM_eq_forM, List.forM_cons, hg i]
    cases hi : ctx.declarations.entries[i]? with
    | none =>
      refine (ih hs).imp fun t _ ht => List.forall_mem_cons.mpr ⟨fun d hd => ?_, ht⟩
      rw [hi] at hd
      cases hd
    | some d =>
      refine (analyze_ends hs (List.mem_of_getElem? hi)).bind fun t ht idle hsettled => ?_
      refine (ih ⟨hs.book.course ht, idle⟩).imp fun u hu hdone => ?_
      refine List.forall_mem_cons.mpr ⟨fun d' hd' => ?_, hdone⟩
      rw [hi] at hd'
      obtain rfl := Option.some.inj hd'
      exact hsettled.course hu

/-- A loop over some nodes and then over others is one loop. -/
theorem settleAll_append {g : Stage.Graph} (order order' : List Nat) :
    settleAll ctx g (order ++ order') =
      (settleAll ctx g order >>= fun _ => settleAll ctx g order') := by
  unfold settleAll
  exact List.forM_append ..

/-- The state in which a loop ends. -/
def endState : EStateM.Result Halt (State β) Unit → State β
  | .ok _ s | .error _ s => s

/-- What was found wrong stays found. -/
theorem Ends.diagnostics_le {Q : State β → Prop} {r : EStateM.Result Halt (State β) Unit}
    (h : Ends ctx s Q r) : s.diagnostics <+: (endState r).diagnostics := by
  cases h with
  | through course idle done => exact (Course.grows course).diagnostics
  | crashed course crash =>
    obtain ⟨said, resolved, leaves, -⟩ := crash.leaves
    exact leaves.diagnostics ▸ (Course.grows course).diagnostics

/-! ## What holds all along -/

/-- **The analysis is sound so far**: the books, the record and the references
are in order. -/
structure Sound (ctx : Context β) (b : β) (s : State β) : Prop where
  book : Book ctx s
  record : Record ctx b s
  references : References ctx s

/-- What every act keeps holds after a course. There are three such things, and
they are kept apart because each is shown for all acts by itself. -/
theorem Sound.course {b : β} (h : Sound ctx b s) (hall : ctx.HasBuiltins) (hc : Course ctx s t) :
    Sound ctx b t where
  book := h.book.course hc
  record := h.record.course hall h.book hc
  references := h.references.course h.book hc

/-- The analysis is sound before it begins. -/
theorem sound_start {b : β} {scopes : Scopes}
    (hscopes : scopes.Faithful ctx.declarations.names) :
    Sound ctx b { ctx.start b with scopes } where
  book :=
    { scopes := hscopes, active := List.nodup_nil, defined := List.nodup_nil
      failed := List.nodup_nil, inProgress := List.nodup_nil
      standing := fun x => ⟨.untouched,
        { declared := fun h => absurd rfl h
          active := iff_of_false List.not_mem_nil Bool.false_ne_true
          defined := iff_of_false List.not_mem_nil Phase.noConfusion
          failed := iff_of_false List.not_mem_nil Bool.false_ne_true
          inProgress := iff_of_false List.not_mem_nil Bool.false_ne_true
          published := rfl
          history := rfl }⟩ }
  record :=
    { attested := attested_nil, accepted := fun e he => absurd he List.not_mem_nil
      about := fun e he => absurd he List.not_mem_nil, backend := rfl, defined := rfl
      reported := fun _ => rfl
      valued := fun x v hv => (by cases hv)
      agrees := ⟨fun x v ty hv => (by cases hv), fun b ty hty => (by cases hty)⟩ }
  references :=
    { chained := List.isChain_nil, inside := fun a x hx => absurd hx List.not_mem_nil
      ordered := fun a x hx => absurd hx List.not_mem_nil }

/-- The built-ins have distinct names, so all of them can be introduced. -/
theorem exists_rootScopes (ctx : Context β) (b : β) :
    ∃ scopes, rootScopes (ctx.start b).scopes = .ok scopes := ⟨_, rfl⟩

/-- Built-ins are introduced under their own names. -/
theorem faithful_rootScopes {names : List String} {scopes scopes' : Scopes}
    (hnames : ∀ b : Builtin, b.name ∈ names) (hscopes : scopes.Faithful names)
    (h : rootScopes scopes = .ok scopes') : scopes'.Faithful names := by
  unfold rootScopes at h
  generalize Builtin.all = builtins at h
  induction builtins generalizing scopes with
  | nil => exact Except.ok.inj h ▸ hscopes
  | cons b builtins ih =>
    rw [List.foldlM_cons] at h
    cases hadd : scopes.add (.unplaced b.name) (.global b.name) with
    | error d =>
      rw [hadd] at h
      cases h
    | ok next =>
      rw [hadd] at h
      refine ih (hscopes.add (fun x hx => ?_) hadd) h
      cases hx
      exact ⟨rfl, hnames b⟩

/-!
## Plans

A module may be refused before anything is analyzed, for its names or for a
cycle. What there is to say of the analysis is said of a plan, which a module
has exactly if it is not. To have the schedule in a structure of its own keeps
it from being computed where it is of no account.
-/

/-- **A plan for a module**: its declarations, and a schedule for them. -/
structure Plan (m : Source.Module) where
  declarations : Declarations
  schedule : Stage.Schedule
  collected : Declarations.collect m = .ok declarations
  scheduled : (stageGraph declarations).schedule = .ok schedule

namespace Plan

/-- A module has one plan at most. -/
theorem eq (p q : Plan m) : p = q := by
  obtain ⟨ds, schedule, hcollected, hscheduled⟩ := p
  obtain ⟨ds', schedule', hcollected', hscheduled'⟩ := q
  obtain rfl := Except.ok.inj (hcollected.symm.trans hcollected')
  obtain rfl := Except.ok.inj (hscheduled.symm.trans hscheduled')
  rfl

/-- The plan for a module, if there is one. -/
def of? (m : Source.Module) : Option (Plan m) :=
  match hm : Declarations.collect m with
  | .error _ => none
  | .ok declarations =>
    match hs : (stageGraph declarations).schedule with
    | .error _ => none
    | .ok schedule => some ⟨declarations, schedule, hm, hs⟩

variable (p : Plan m) (backend : Backend β) (b : β) (options : Options)

/-- What the analysis of a module works with. -/
abbrev context : Context β := ⟨p.declarations, options, backend⟩

/-- **The run of the loop** over part of the schedule, from the state in which
the built-ins are in the outermost scope. -/
def run (order : List Nat) : EStateM.Result Halt (State β) Unit :=
  match rootScopes ((p.context backend options).start b).scopes with
  | .ok scopes => settleAll (p.context backend options) (stageGraph p.declarations) order
      { (p.context backend options).start b with scopes }
  | .error _ => .ok () ((p.context backend options).start b)

/-- **Where the analysis stands** after the first `n` declarations of the
schedule, or where it stopped before. -/
def after (n : Nat) : State β := endState (p.run backend b options (p.schedule.order.take n))

/-- **Where the analysis ends.** -/
def last : State β := endState (p.run backend b options p.schedule.order)

variable {p backend b options}

/-- The declarations of a plan are the built-ins and those of the module. -/
theorem entries_eq : p.declarations.entries = Declarations.entriesOf m :=
  Declarations.entries_eq_of_collect_eq_ok p.collected

/-- A function among the declarations of a plan is one of the module. -/
theorem exists_function (p : Plan m) {x : String} (hx : p.declarations.isFunction x = true) :
    ∃ f, .function f ∈ m ∧ f.name.text = x := by
  obtain ⟨d, hd, hfunction⟩ : ∃ d, p.declarations.find? x = some d ∧ d.isFunction = true := by
    simpa [Declarations.isFunction, Option.any_eq_true] using hx
  obtain ⟨hentry, rfl⟩ := Declarations.find?_eq_some_iff.mp hd
  rw [p.entries_eq] at hentry
  rcases d with b | f | c
  · cases hfunction
  · refine ⟨f, ?_, rfl⟩
    obtain hentry | hentry := List.mem_append.mp hentry
    · obtain ⟨b, -, hb⟩ := List.mem_map.mp hentry
      cases hb
    · obtain ⟨item, hitem, heq⟩ := List.mem_map.mp hentry
      cases heq
      exact hitem
  · cases hfunction

/-- All built-ins are among them. -/
theorem hasBuiltins : (p.context backend options).HasBuiltins := by
  intro b
  show _ ∈ p.declarations.entries
  rw [entries_eq]
  refine List.mem_append_left _ (List.mem_map.mpr ⟨b, ?_, rfl⟩)
  cases b <;> decide

/-- The built-ins can be introduced in the outermost scope, under their own
names. -/
theorem exists_faithful (p : Plan m) (backend : Backend β) (b : β) (options : Options) :
    ∃ scopes : Scopes, scopes.Faithful p.declarations.names ∧
      rootScopes ((p.context backend options).start b).scopes = .ok scopes := by
  have hall : (p.context backend options).HasBuiltins := hasBuiltins
  obtain ⟨scopes, hscopes⟩ := exists_rootScopes (p.context backend options) b
  refine ⟨scopes, faithful_rootScopes (fun b => ?_) ?_ hscopes, hscopes⟩
  · exact List.mem_map.mpr ⟨_, hall b, rfl⟩
  · exact ⟨rfl, Scope.faithful_empty, fun scope hs => absurd hs List.not_mem_nil⟩

/-- **The analysis starts** with the built-ins in the outermost scope, and
nothing known. -/
theorem exists_scopes (p : Plan m) (backend : Backend β) (b : β) (options : Options) :
    ∃ scopes : Scopes, scopes.Faithful p.declarations.names ∧
      ∀ order, p.run backend b options order
        = settleAll (p.context backend options) (stageGraph p.declarations) order
          { (p.context backend options).start b with scopes } := by
  obtain ⟨scopes, hfaithful, hscopes⟩ := exists_faithful p backend b options
  exact ⟨scopes, hfaithful, fun order => by rw [run, hscopes]⟩

/-- It is sound there. -/
theorem exists_start (p : Plan m) (backend : Backend β) (b : β) (options : Options) :
    ∃ s, Sound (p.context backend options) b s ∧ s.active = [] ∧
      ∀ order, p.run backend b options order
        = settleAll (p.context backend options) (stageGraph p.declarations) order s := by
  obtain ⟨scopes, hscopes, hrun⟩ := exists_scopes p backend b options
  exact ⟨_, sound_start hscopes, rfl, hrun⟩

/-- What a node of the stage graph stands for. -/
theorem find?_node? (i : Nat) :
    ((stageGraph p.declarations).node? i >>= (·.declaration) >>= p.declarations.find?)
      = p.declarations.entries[i]? := by
  rw [stageGraph, Dependencies.node?_stageGraph]
  cases hi : p.declarations.entries[i]? with
  | none => rfl
  | some d => exact Declarations.find?_eq_some_iff.mpr ⟨List.mem_of_getElem? hi, rfl⟩

/-- Every declaration has a place in the schedule. -/
theorem exists_mem_order {x : String} (hx : x ∈ p.declarations.names) :
    ∃ i ∈ p.schedule.order, ∃ d ∈ p.declarations.entries[i]?, d.name = x := by
  obtain ⟨d, hd, rfl⟩ := List.mem_map.mp hx
  obtain ⟨i, hi⟩ := List.mem_iff_getElem?.mp hd
  refine ⟨i, ?_, d, hi, rfl⟩
  have hperm := (Stage.Graph.runs_of_schedule_eq_ok p.scheduled).perm
  refine hperm.mem_iff.mpr (Stage.Graph.mem_indices.mpr ?_)
  rw [stageGraph, Dependencies.size_stageGraph]
  exact (List.getElem?_eq_some_iff.mp hi).1

/-- **How a compilation finishes**: the loop is through and all is settled, or
the analysis crashed. -/
inductive Finishes (p : Plan m) (backend : Backend β) (b : β) (options : Options) :
    State β → Outcome β → Prop where
  | through {s : State β} (sound : Sound (p.context backend options) b s) (idle : s.active = [])
    (settled : (s.defined ++ s.failed).Perm p.declarations.names) :
    Finishes p backend b options s
      { result := conclude (p.context backend options) (stageGraph p.declarations) p.schedule s
        transcript := s.transcript, backend := s.backend }
  | crashed {u s : State β} {f : Fatal} (sound : Sound (p.context backend options) b u)
    (crash : Crash (p.context backend options) u f s) :
    Finishes p backend b options s
      { result := .error (.fatal f), transcript := s.transcript, backend := s.backend }

/-- The outcome has the transcript of the last state. -/
theorem Finishes.transcript_eq {s : State β} {o : Outcome β}
    (h : Finishes p backend b options s o) : o.transcript = s.transcript := by
  cases h with
  | through sound idle settled => rfl
  | crashed sound crash => rfl

/-- What is settled is what was declared, each once. -/
theorem perm_names {s : State β} (hs : Sound (p.context backend options) b s)
    (hall : ∀ x ∈ p.declarations.names, Settled s x) :
    (s.defined ++ s.failed).Perm p.declarations.names := by
  have hnodup := hs.book.defined.append hs.book.failed hs.book.disjoint_defined_failed
  refine (List.perm_ext_iff_of_nodup hnodup p.declarations.distinct).mpr fun x => ⟨fun hx => ?_, ?_⟩
  · obtain ⟨q, hq⟩ := hs.book.standing x
    refine hq.declared ?_
    rintro rfl
    rw [List.mem_append, hq.defined, hq.failed] at hx
    simp [Phase.isFailed] at hx
  · exact fun hx => List.mem_append.mpr (hall x hx)

/-- So there are as many defined and refused as there are declarations, which is
what is counted in the end. -/
theorem length_of_settled (h : (s.defined ++ s.failed).Perm p.declarations.names) :
    s.defined.length + s.failed.length = p.declarations.count := by
  rw [← List.length_append, h.length_eq]
  exact List.length_map _

/-- The outcome is read off where the loop ends. -/
theorem compileWith_eq : compileWith m backend b options =
    match p.run backend b options p.schedule.order with
    | .ok () s =>
      { result := conclude (p.context backend options) (stageGraph p.declarations) p.schedule s
        transcript := s.transcript, backend := s.backend }
    | .error h s =>
      { result := .error (match h with
          | .fatal f => .fatal f
          | .diagnostics => .diagnostics s.diagnostics)
        transcript := s.transcript, backend := s.backend } := by
  obtain ⟨scopes, hscopes⟩ := exists_rootScopes (p.context backend options) b
  rw [compileWith, p.collected]
  dsimp only
  rw [p.scheduled]
  dsimp only [Compile.scheduled, run]
  rewrite [hscopes]
  rfl

/-- **How the loop ends**: it is through and all is settled, or the analysis
crashed. -/
theorem run_cases (p : Plan m) (backend : Backend β) (b : β) (options : Options) :
    (∃ s, p.run backend b options p.schedule.order = .ok () s ∧
      Sound (p.context backend options) b s ∧ s.active = [] ∧
      (s.defined ++ s.failed).Perm p.declarations.names) ∨
    ∃ u f s, p.run backend b options p.schedule.order = .error (.fatal f) s ∧
      Sound (p.context backend options) b u ∧ Crash (p.context backend options) u f s := by
  obtain ⟨s, hs, idle, hrun⟩ := exists_start p backend b options
  have hends := settleAll_ends p.schedule.order ⟨hs.book, idle⟩ (find?_node? (p := p))
  rw [← hrun] at hends
  generalize p.run backend b options p.schedule.order = result at hends
  cases hends with
  | through course idle done =>
    have ht := hs.course p.hasBuiltins course
    refine .inl ⟨_, rfl, ht, idle, perm_names ht fun x hx => ?_⟩
    obtain ⟨i, hi, d, hd, rfl⟩ := exists_mem_order hx
    exact done i hi d hd
  | crashed course crash => exact .inr ⟨_, _, _, rfl, hs.course p.hasBuiltins course, crash⟩

/-- **Every compilation finishes.**

A round settles one declaration of the schedule, unless it is settled already,
by a course of acts that leaves nothing under analysis. So the next round begins
like the first. The induction is on the rest of the schedule. What is not a
course ends in a crash, and then the loop is over. -/
theorem finishes (p : Plan m) (backend : Backend β) (b : β) (options : Options) :
    Finishes p backend b options (p.last backend b options) (compileWith m backend b options) := by
  rw [p.compileWith_eq, last]
  obtain ⟨s, hrun, hs, idle, settled⟩ | ⟨u, f, s, hrun, hu, crash⟩ :=
    p.run_cases backend b options
  · rw [hrun]
    exact .through hs idle settled
  · rw [hrun]
    exact .crashed hu crash

/-- A compilation that succeeds has got through the loop. -/
theorem run_of_result_eq_ok (p : Plan m) {c : Compiled}
    (hc : (compileWith m backend b options).result = .ok c) :
    p.run backend b options p.schedule.order = .ok () (p.last backend b options) ∧
      conclude (p.context backend options) (stageGraph p.declarations) p.schedule
        (p.last backend b options) = .ok c := by
  rw [p.compileWith_eq] at hc
  rw [last]
  cases hrun : p.run backend b options p.schedule.order with
  | ok a s =>
    rw [hrun] at hc
    exact ⟨rfl, hc⟩
  | error e s =>
    rw [hrun] at hc
    cases hc

/-- A compilation that succeeds has everything defined, and the outcome says
what is known. -/
theorem Finishes.of_result_eq_ok {s : State β} {o : Outcome β}
    (h : Finishes p backend b options s o) {c : Compiled}
    (hc : o.result = .ok c) :
    Sound (p.context backend options) b s ∧ s.active = [] ∧ s.failed = [] ∧
      s.defined.Perm p.declarations.names ∧ o.transcript = s.transcript ∧
      c.order = s.defined ∧ c.types = tabulate p.declarations s.types ∧
      c.references = references s.resolutions := by
  cases h with
  | crashed sound crash => cases hc
  | through sound idle settled =>
    dsimp only [conclude] at hc
    split at hc
    · cases hc
    split at hc
    · cases hc
    rename_i hdiagnostics
    have hfailed : s.failed = [] := sound.record.reported (by simpa using hdiagnostics)
    obtain rfl := Except.ok.inj hc
    rw [hfailed, List.append_nil] at settled
    exact ⟨sound, idle, hfailed, settled, rfl, rfl, rfl, rfl⟩

/-- **What was found wrong stays found**, in the rest of the loop. -/
theorem diagnostics_after_le (p : Plan m) (backend : Backend β) (b : β) (options : Options)
    (n : Nat) :
    (p.after backend b options n).diagnostics <+: (p.last backend b options).diagnostics := by
  obtain ⟨s, hs, idle, hrun⟩ := exists_start p backend b options
  have hends := settleAll_ends (p.schedule.order.take n) ⟨hs.book, idle⟩ (find?_node? (p := p))
  rw [after, last, hrun, hrun]
  nth_rewrite 2 [← List.take_append_drop n p.schedule.order]
  rw [settleAll_append]
  match hfirst : settleAll (p.context backend options) (stageGraph p.declarations)
    (p.schedule.order.take n) s, hends with
  | .ok () t, .through course idle done =>
    rw [bind_of_ok hfirst]
    exact (settleAll_ends _ ⟨hs.book.course course, idle⟩ (find?_node? (p := p))).diagnostics_le
  | .error (.fatal f) t, .crashed course crash =>
    rw [bind_of_error hfirst]

end Plan

/-- **A module without a plan is refused**, and the backend hears nothing of
it. -/
theorem compileWith_of_isEmpty (h : IsEmpty (Plan m)) (backend : Backend β) (b : β)
    (options : Options) :
    ∃ failure, compileWith m backend b options = { result := .error failure, backend := b } := by
  unfold compileWith
  cases hm : Declarations.collect m with
  | error ds => exact ⟨_, rfl⟩
  | ok ds =>
    dsimp only
    cases hschedule : (stageGraph ds).schedule with
    | error cycle => exact ⟨_, rfl⟩
    | ok schedule => exact h.elim ⟨ds, schedule, hm, hschedule⟩

/-- A compilation that succeeds has a plan. -/
theorem nonempty_plan_of_ok {backend : Backend β} {b : β} {options : Options} {c : Compiled}
    (h : (compileWith m backend b options).result = .ok c) : Nonempty (Plan m) := by
  refine not_isEmpty_iff.mp fun hempty => ?_
  obtain ⟨failure, hfailure⟩ := compileWith_of_isEmpty hempty backend b options
  rw [hfailure] at h
  cases h

/-- A compilation that asks the backend for anything has a plan. -/
theorem nonempty_plan_of_mem_transcript {backend : Backend β} {b : β} {options : Options}
    {e : Exchange} (h : e ∈ (compileWith m backend b options).transcript) : Nonempty (Plan m) := by
  refine not_isEmpty_iff.mp fun hempty => ?_
  obtain ⟨failure, hfailure⟩ := compileWith_of_isEmpty hempty backend b options
  rw [hfailure] at h
  cases h

/-- A compilation that is stopped, and not by a cycle, has got to the
analysis. -/
theorem nonempty_plan_of_fatal {backend : Backend β} {b : β} {options : Options} {f : Fatal}
    (h : (compileWith m backend b options).result = .error (.fatal f))
    (hcycle : ∀ c, f ≠ .cycle c) : Nonempty (Plan m) := by
  unfold compileWith at h
  cases hm : Declarations.collect m with
  | error ds => simp [hm] at h
  | ok ds =>
    simp only [hm] at h
    cases hschedule : (stageGraph ds).schedule with
    | error cycle =>
      rw [hschedule] at h
      exact absurd (Failure.fatal.inj (Except.error.inj h)).symm (hcycle cycle)
    | ok schedule => exact ⟨⟨ds, schedule, hm, hschedule⟩⟩

end Stagewise.Compile
