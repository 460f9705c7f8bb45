import Stagewise.Proofs.Compile.Symbols

/-!
# Scoping

Names are lowered as they are, and so are scopes. But a variable is visible in
what follows the statement that introduces it, and in the target it is visible
from where its name is written, and so in its own initializer too. Where a
variable hides another and is initialized with that, it becomes a variable that
is initialized with itself (`eclipse_reads_itself`).

This is all that can go wrong. What was recorded of a name is what it refers to,
wherever the name is, and it is what the target takes the name for exactly if no
initializer uses the name of its variable (`lowered_scoping`).
-/

namespace Stagewise

open Analysis

open Source (Invocation)

variable {β : Type} {c : Scopes} {names : List String} {x : String}

/-!
## Frames of scopes

What the target takes a name for is a variable, and in the trees there are no
variables, only names. So variables are numbered. A frame says which one a name
stands for in some place, and it renders the environment of the place if the
locals there are those of the numbers.
-/

/-- The local that is referred to, if it is one. -/
def Binding.local? : Binding → Option Local
  | .global _ => none
  | .lexical l => some l

namespace Scopes

/-- The locals in scope, the innermost first. -/
def locals (c : Scopes) : List Local :=
  (c.inner ++ [c.root]).flatMap fun scope => scope.entries.filterMap (·.binding.local?)

/-- **The frame of a chain of scopes**, where locals have the numbers of their
places. -/
def frame (c : Scopes) : Frame := fun x => (c.resolve x >>= Binding.local?).map (c.locals.idxOf ·)

/-- A local that a name refers to was introduced in one of the scopes. -/
theorem exists_scope_of_resolve {l : Local} (h : c.resolve x = some (.lexical l)) :
    ∃ scope ∈ c.inner ++ [c.root], scope.own? x = some (.lexical l) := by
  unfold resolve at h
  generalize c.inner = inner at h ⊢
  induction inner with
  | nil =>
    refine ⟨c.root, List.mem_singleton_self _, ?_⟩
    unfold resolveIn rootBinding at h
    split at h
    · rename_i hb
      exact hb.trans h
    · split at h <;> cases h
  | cons scope outer ih =>
    unfold resolveIn at h
    split at h
    · rename_i hb
      exact ⟨scope, List.mem_cons_self, hb.trans h⟩
    · obtain ⟨other, hother, hown⟩ := ih h
      exact ⟨other, List.mem_cons_of_mem _ hother, hown⟩

/-- What a name refers to is in scope. -/
theorem mem_locals {l : Local} (h : c.resolve x = some (.lexical l)) : l ∈ c.locals := by
  obtain ⟨scope, hscope, hown⟩ := exists_scope_of_resolve h
  obtain ⟨e, he, hbinding⟩ := Option.map_eq_some_iff.mp hown
  refine List.mem_flatMap.mpr ⟨scope, hscope, List.mem_filterMap.mpr ⟨e, ?_, ?_⟩⟩
  · exact List.mem_of_find?_eq_some he
  · rw [hbinding, Binding.local?]

/-- The numbers of locals are less than how many there are. -/
theorem frame_below (c : Scopes) : c.frame.Below c.locals.length := by
  intro x k hk
  obtain ⟨l, hl, rfl⟩ := Option.map_eq_some_iff.mp hk
  obtain ⟨b, hb, hlocal⟩ := Option.bind_eq_some_iff.mp hl
  cases b with
  | global y => cases hlocal
  | lexical l' =>
    cases hlocal
    exact List.idxOf_lt_length_of_mem (mem_locals hb)

/-- **The frame of faithful scopes renders them.** -/
theorem Faithful.renders (h : c.Faithful names) : c.frame.Renders c.resolve c.locals := by
  intro x b hb
  unfold frame
  rw [hb]
  cases b with
  | global y => exact (h.eq_of_resolve hb).1
  | lexical l => exact List.getElem?_idxOf (mem_locals hb)

end Scopes

/-- The frame where there are no locals. -/
def Frame.empty : Frame := fun _ => none

theorem Frame.empty_below : Frame.empty.Below 0 := fun x k hk => by cases hk

/-- At the top level there is nothing but declarations. -/
theorem Frame.empty_renders (names : List String) :
    Frame.empty.Renders (Env.topLevel names) [] := by
  intro x b hb
  unfold Env.topLevel at hb
  split at hb
  · cases hb
    exact rfl
  · cases hb

/-! ## Lowered trees -/

/-- **How a lowered tree is scoped**, with some locals around it and a frame of
them, and `ps` the pieces of its text. The names in it are those of the tree it
is made from. What was recorded of a name is the local that it refers to, where
variables are visible after their statements, or the declaration of that name.
The target has variables visible from where their names are written, and takes
all names for the same exactly if no initializer uses the name of its variable.
What the target takes names for is read off the text. -/
structure Scoped (ρ : Frame) (locals : List Local) (o : Skeleton (Option Binding))
    (lowered : Skeleton Unit) (ps : List Target.Piece) : Prop where
  reads : Target.Reads ps lowered
  uses : lowered.uses.map (·.1) = o.uses.map (·.1)
  recorded : ∃ more : List Local, more.map Local.declarator = lowered.declarators ∧
    ∀ u ∈ o.resolve .statement ρ locals.length, Skeleton.Noted (locals ++ more) u
  agrees : lowered.resolve .declarator ρ locals.length
      = (o.resolve .statement ρ locals.length).map (Occurrence.map fun _ => ()) ↔
    o.Steady

/-- A skeleton that an environment binds is scoped by a frame that renders
it. -/
theorem Skeleton.Bound.scoped {ρ : Frame} {E : Env} {locals : List Local}
    {o : Skeleton (Option Binding)} {lowered : Skeleton Unit} {ps : List Target.Piece}
    (h : o.Bound E) (hlowered : lowered = o.plain) (hreads : Target.Reads ps lowered)
    (hbelow : ρ.Below locals.length) (hrenders : ρ.Renders E locals) :
    Scoped ρ locals o lowered ps := by
  subst hlowered
  refine ⟨hreads, o.map_uses_plain, ?_, ?_⟩
  · rw [Skeleton.declarators_map]
    exact h.noted hrenders
  · rw [← Skeleton.resolve_map, Skeleton.resolve_eq_iff _ hbelow, Skeleton.steady_map]

/-! ## Whole compilations -/

/-- **The target takes names for what was recorded of them** exactly if no
initializer uses the name of its variable. This holds of the text of every
definition that is sent, where nothing but declarations is around it, and of the
text of every expression and every block that is checked, where the locals in
scope are around it and whatever becomes of the value.

Lowering keeps names and scopes as they are, and printing keeps their order. So
all that can differ is from where on a variable is visible, and that matters in
its initializer only. -/
theorem lowered_scoping (m : Source.Module) (backend : Backend β) (b : β) (options : Options) :
    (∀ e ∈ (compileWith m backend b options).transcript, e.kind = .define →
      ∃ d ∈ Declarations.entriesOf m, ∃ item o, e.text = Target.Item.text item ∧
        e.text = Target.Piece.textOf item.pieces ∧ Defines options d e.subject item o ∧
        Scoped .empty [] o item.skeleton item.pieces) ∧
    ∀ (ctx : Context β) (depth : Nat) (s t : State β) (hint : Option Ty),
      s.scopes.Faithful ctx.declarations.names →
      (∀ (e : Source.Expr Invocation) (term : Term), inferWithin ctx depth e hint s = .ok term t →
        term.lower.text = Target.Piece.textOf term.lower.pieces ∧
        Scoped s.scopes.frame s.scopes.locals (term.skeleton .done) (term.lower.skeleton .done)
          term.lower.pieces) ∧
      ∀ (body : Source.Block Invocation) (block : Term.Block),
        checkBlockWithin ctx depth body hint s = .ok block t →
          (∀ sink level,
            Target.Stmt.texts level (block.lower sink)
              = Target.Piece.textOf (Target.Stmt.piecesAll level (block.lower sink)) ∧
            Scoped s.scopes.frame s.scopes.locals block.skeleton
              (Target.Stmt.skeletons (block.lower sink) .done)
              (Target.Stmt.piecesAll level (block.lower sink))) ∧
          block.value.text = Target.Piece.textOf block.value.pieces ∧
          Scoped s.scopes.frame s.scopes.locals (block.valueSkeleton .done)
            (block.value.skeleton .done) block.value.pieces := by
  refine ⟨fun e he hkind => ?_, fun ctx depth s t hint hs => ⟨fun e term hterm => ?_, ?_⟩⟩
  · obtain ⟨p⟩ := Compile.nonempty_plan_of_mem_transcript he
    cases p.sourced backend b options e he with
    | declare | evaluate | expand => cases hkind
    | @define d _ item o _ entry defines bound =>
      refine ⟨d, p.entries_eq ▸ entry, item, o, rfl, item.text_eq, defines, ?_⟩
      exact bound.scoped defines.skeleton_item item.reads Frame.empty_below (Frame.empty_renders _)
  -- checking binds the skeleton in the environment of the place, whatever that is
  · have htyped := ((inferWithin_proceeds depth e hint).of_eq_ok hterm).2
    have hbound : (term.skeleton .done).Bound s.scopes.resolve := htyped.bound trivial
    exact ⟨term.lower.text_eq, hbound.scoped (term.skeleton_lower .done) term.lower.reads
      s.scopes.frame_below hs.renders⟩
  · intro body block hblock
    have hstmts := ((checkBlockWithin_proceeds depth body hint).of_eq_ok hblock).2.boundStmts
    have hvalue : (block.valueSkeleton .done).Bound s.scopes.resolve := hstmts.boundValue trivial
    refine ⟨fun sink level => ⟨Target.Stmt.texts_eq level _, ?_⟩, block.value.text_eq, ?_⟩
    · exact hstmts.bound.scoped (block.skeleton_lower sink) (Target.Stmt.reads_all level _)
        s.scopes.frame_below hs.renders
    · exact hvalue.scoped (block.skeleton_value .done) block.value.reads s.scopes.frame_below
        hs.renders

/-- A function with a variable that hides its parameter, and is initialized with
that. -/
def eclipse : Source.Module :=
  [.function
    { span := .nowhere, name := .unplaced "f"
      params := [⟨.unplaced "x", .var (.unplaced "Int")⟩], result := .var (.unplaced "Int")
      body :=
        ⟨.nowhere,
          [.bind .nowhere (.unplaced "x") (.var (.unplaced "Int")) (.ofExpr (.var (.unplaced "x"))),
            .eval (.var (.unplaced "x"))]⟩ }]

/-- The body that a request is made from. -/
def Analysis.Subject.body? : Subject → Option Term.Block
  | .body _ b => some b
  | _ => none

/-- **A variable is initialized with itself.** What it should be initialized
with is the parameter, and that was recorded. -/
theorem eclipse_reads_itself :
    ∃ e ∈ (compileWith eclipse (Buffer.backend none) { evaluator := () } {}).transcript,
      e.kind = .define ∧ e.text = "int f(int x) \x7b\n    int x = x;\n    return x;\n\x7d" ∧
      ∃ body ∈ e.subject.body?,
        (Skeleton.params [("x", .int)] body.skeleton).resolve .statement .empty 0
          = [⟨"x", some (.lexical ⟨.unplaced "x", .parameter, .int⟩), some 0⟩,
            ⟨"x", some (.lexical ⟨.unplaced "x", .assignable, .int⟩), some 1⟩] ∧
        (Skeleton.params [("x", .int)] (Target.Stmt.skeletons (body.lower .give) .done)).resolve
          .declarator .empty 0 = [⟨"x", (), some 1⟩, ⟨"x", (), some 1⟩] := by
  decide +kernel

/-- The definition that is sent is scoped as the theorem says, and its
initializer uses the name of its variable. So the target takes that name for
something else. -/
theorem eclipse_scoped :
    ∃ e ∈ (compileWith eclipse (Buffer.backend none) { evaluator := () } {}).transcript,
      e.kind = .define ∧ e.subject.declaration? = some "f" ∧
      ∃ item o, e.text = Target.Piece.textOf (Target.Item.pieces item) ∧
        Scoped .empty [] o item.skeleton item.pieces := by
  have hrequest :
      ∃ e ∈ (compileWith eclipse (Buffer.backend none) { evaluator := () } {}).transcript,
        e.kind = .define ∧ e.subject.declaration? = some "f" := by
    decide +kernel
  obtain ⟨e, he, hkind, habout⟩ := hrequest
  obtain ⟨d, -, item, o, -, htext, -, hscoped⟩ :=
    (lowered_scoping eclipse (Buffer.backend none) { evaluator := () } {}).1 e he hkind
  exact ⟨e, he, hkind, habout, item, o, htext, hscoped⟩

end Stagewise
