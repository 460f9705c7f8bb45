import Stagewise.Proofs.Analysis.Nesting
import Stagewise.Proofs.Analysis.Session

/-!
# What is put back

While a declaration is under analysis it is on a stack, and as long as its type
is being computed it is marked. Where the analysis goes into an ascription, that
is noted too. All three are put back on the way out, be it that the analysis got
through, that the declaration is refused, or that everything has to stop
(`Restored`).

The mark is the delicate one, as it is made and cleared by the declaration and
cleared once more when the declaration is left. That would take away a mark that
was there before. But a declaration is only entered if it has none: whoever asks
for its type makes sure of that first.
-/

namespace Stagewise.Analysis

variable {β α : Type} {ctx : Context β} {s t : State β} {name : String}
  {demand : String → Check β Ty}

/-- **What is put back on the way out.** -/
structure Restored (s t : State β) : Prop where
  active : t.active = s.active
  inProgress : t.inProgress = s.inProgress
  inAscription : t.inAscription = s.inAscription

/-!
## Trees

In a tree there is nothing to put back but the note that an ascription is being
read, and this is done by the step that reads it. The declarations that are
settled on the way are the business of the next section.
-/

/-- A request is about the backend, and changes nothing of this. -/
theorem restored_send {kind : Request} {subject : Subject} {text : String}
    {run : β → Except Backend.Fault α × β} : Moves Restored (send kind subject text run) :=
  moves_send fun _ _ => ⟨rfl, rfl, rfl⟩

theorem restored_define {subject : Subject} {text : String} :
    Moves Restored (define ctx name subject text) := fun _ =>
  .define ⟨rfl, rfl, rfl⟩ fun _ _ => ⟨rfl, rfl, rfl⟩

/-- Neither does an expansion, be it known or not. -/
theorem restored_expansion (binding : Binding) (text : String) :
    Moves Restored (expansion ctx binding text) := by
  intro s
  cases hget : s.cache.get? text with
  | some d =>
    rw [expansion_of_known hget]
    exact ⟨rfl, rfl, rfl⟩
  | none =>
    rw [expansion_of_unknown hget]
    exact (restored_send s).bindOk (fun _ ht => ht) fun d t _ ht =>
      ⟨ht.active, ht.inProgress, ht.inAscription⟩

/-- **The checking of trees puts everything back.** -/
theorem carries_restored (ctx : Context β) : Carries ctx Restored where
  refl _ := ⟨rfl, rfl, rfl⟩
  trans h h' :=
    ⟨h'.active.trans h.active, h'.inProgress.trans h.inProgress,
      h'.inAscription.trans h.inAscription⟩
  quiet _ _ _ _ _ _ := ⟨rfl, rfl, rfl⟩
  inAscription h := ⟨h.active, h.inProgress, rfl⟩
  evaluate _ := restored_send
  expansion := restored_expansion

/-! ## Declarations -/

/-- **How the examination of a declaration leaves things**: the mark of the
declaration may be there still, and all else is put back. -/
structure Left (name : String) (s t : State β) : Prop where
  active : t.active = s.active
  inProgress : t.inProgress = s.inProgress ∨ t.inProgress = name :: s.inProgress
  inAscription : t.inAscription = s.inAscription

theorem Restored.left (h : Restored s t) : Left name s t :=
  ⟨h.active, .inl h.inProgress, h.inAscription⟩

theorem Left.of_mark (hnew : name ∉ s.inProgress) (h : Restored (s.mark name) t) :
    Left name s t :=
  ⟨h.active, .inr (h.inProgress.trans (List.insert_of_not_mem hnew)), h.inAscription⟩

theorem restored_examineBuiltin (b : Builtin) : Moves Restored (examineBuiltin ctx b) := by
  have hc := carries_restored ctx
  unfold examineBuiltin
  refine hc.bind restored_send fun _ => hc.bind restored_define fun _ => ?_
  refine hc.bind (fun _ => ⟨rfl, rfl, rfl⟩) fun _ => ?_
  cases b.alias? with
  | some t => exact fun _ => ⟨rfl, rfl, rfl⟩
  | none => exact hc.refl

section

variable (hdemand : ∀ x, Moves Restored (demand x))
include hdemand

/-- **A function clears its mark** once its type is published, before its body
is checked. If that fails on the way there then the mark is left to whoever
settles it. -/
theorem left_examineFunction (f : Source.Function) (hnew : f.name.text ∉ s.inProgress) :
    EndsIn (Left f.name.text s) (examineFunction ctx demand f s) := by
  have hc := carries_restored ctx
  unfold examineFunction
  refine .modify_bind ?_
  refine hc.bindAt (hc.refl _) (hc.inferParams hdemand f.params) (fun _ => .of_mark hnew)
    fun params t ht => ?_
  refine hc.bindAt ht (hc.ascribedSource hdemand f.result) (fun _ => .of_mark hnew)
    fun result u hu => ?_
  -- the mark is cleared here, and what follows puts everything back
  refine .modify_bind (.modify_bind ?_)
  have hunmarked : Restored s { u with
      types := (f.name.text, .functionOf (params.map (·.2)) result) :: u.types
      inProgress := u.inProgress.erase f.name.text } := by
    refine ⟨hu.active, ?_, hu.inAscription⟩
    rw [hu.inProgress.trans (List.insert_of_not_mem hnew)]
    exact List.erase_cons_head ..
  suffices hrest : Moves Restored _ from
    (hrest _).imp fun _ hv => (hc.trans hunmarked hv).left
  refine hc.bind restored_send fun _ => hc.bind (hc.body hdemand params f.body _) fun body => ?_
  refine hc.bind (hc.expect .result result body.ty body.resultSpan) fun _ => ?_
  exact hc.reportIf restored_define

/-- A constant keeps its mark until it is defined, as its body has to be checked
for its type. -/
theorem left_examineConstant (c : Source.Constant) (hnew : c.name.text ∉ s.inProgress) :
    EndsIn (Left c.name.text s) (examineConstant ctx demand c s) := by
  have hc := carries_restored ctx
  unfold examineConstant
  refine .modify_bind ?_
  suffices hrest : Moves Restored _ from (hrest _).imp fun _ => .of_mark hnew
  refine hc.bind (hc.ascribedSource hdemand c.ascription) fun ty => ?_
  refine hc.bind restored_send fun _ => hc.bind (hc.body hdemand [] c.body _) fun body => ?_
  refine hc.bind (hc.expect .constantBody ty body.ty body.resultSpan) fun _ => ?_
  refine hc.bind (hc.foldedBlock body) fun v => ?_
  have hpublish : Moves Restored (publish (β := β) c.name.text ty) := fun _ => ⟨rfl, rfl, rfl⟩
  cases v with
  | some v =>
    exact hc.bind restored_define fun _ => hc.bind (fun _ => ⟨rfl, rfl, rfl⟩) fun _ => hpublish
  | none => exact hc.bind restored_define fun _ => hpublish

/-- A built-in is never marked, and the others leave their own mark at most. -/
theorem left_examine (d : Declaration) (hnew : d.name ∉ s.inProgress) :
    EndsIn (Left d.name s) (examine ctx demand d s) := by
  rcases d with b | f | c
  · exact (restored_examineBuiltin b s).imp fun _ ht => ht.left
  · exact left_examineFunction hdemand f hnew
  · exact left_examineConstant hdemand c hnew

end

/-- **Settling a declaration puts everything back**, if the declaration had no
mark. -/
theorem restored_settle {step : Check β Unit} (hnew : name ∉ s.inProgress)
    (h : EndsIn (Left name (s.enter name)) (step (s.enter name))) :
    EndsIn (Restored s) (settle name step s) := by
  refine .settle ⟨rfl, rfl, rfl⟩ (fun _ => h) fun t ht failed => ⟨?_, ?_, rfl⟩
  · exact congrArg List.tail ht.active
  · show t.inProgress.erase name = s.inProgress
    obtain hprogress | hprogress := ht.inProgress
    · rw [hprogress, List.erase_of_not_mem hnew]
    · rw [hprogress]
      exact List.erase_cons_head ..

/-- **However deep an analysis goes**, it puts everything back. -/
theorem restored_analyzeWithin (depth : Nat) : ∀ d ∈ ctx.declarations.entries, ∀ s : State β,
    d.name ∉ s.inProgress → EndsIn (Restored s) (analyzeWithin ctx depth d s) :=
  (carries_restored ctx).analyzeWithin (fun _ _ hnew _ => hnew)
    (fun d _ _ hdemand _ hnew => restored_settle hnew (left_examine hdemand d hnew)) depth

/-- Whoever asks for a type makes sure that it is not being computed. -/
theorem restored_demandWith (depth : Nat) (x : String) :
    Moves Restored (demandWith ctx (analyzeWithin ctx depth) x) :=
  (carries_restored ctx).demandWith
    (fun d hd s hnew _ => restored_analyzeWithin depth d hd s hnew) x

theorem restored_perform (op : Operation) (s : State β)
    (hnew : ∀ x, op = .analyze x → x ∉ s.inProgress) : EndsIn (Restored s) (perform ctx op s) :=
  (carries_restored ctx).perform (restored_demandWith _) (fun _ => restored_send)
    (fun _ _ => restored_define) op s fun d hd hop =>
      restored_analyzeWithin _ d hd s (hnew d.name hop)

/-! ## Sessions -/

/-- **All is put back, however an operation ends.** No operation changes what is
under analysis, what is marked and whether an ascription is being read, whatever
state it begins in, provided that a declaration that is to be settled has no
mark; and asking for types, at any depth, makes sure of that itself. So between
the calls of a session nothing is under analysis and nothing is marked.

It holds because a mark is looked at before it is made. When a declaration is
left, its name is taken off the list of marks. The list then is what it was
before, since the name was put there once at most, and was not there when the
declaration was entered. -/
theorem restored_always (ctx : Context β) :
    (∀ (op : Operation) (s : State β), (∀ x, op = .analyze x → x ∉ s.inProgress) →
      EndsIn (Restored s) (perform ctx op s)) ∧
    (∀ (depth : Nat) (x : String) (s : State β),
      EndsIn (Restored s) (demandWith ctx (analyzeWithin ctx depth) x s)) ∧
    ∀ (b : β) (calls : List Call),
      (session ctx (ctx.start b) calls).active = [] ∧
      (session ctx (ctx.start b) calls).inProgress = [] ∧
      (session ctx (ctx.start b) calls).inAscription = false := by
  refine ⟨restored_perform, restored_demandWith, fun b calls => ?_⟩
  refine session_induction
    (P := fun s => s.active = [] ∧ s.inProgress = [] ∧ s.inAscription = false) calls
    ⟨rfl, rfl, rfl⟩ fun s c ⟨hactive, hprogress, hascription⟩ => ?_
  have hcall : Restored { s with scopes := c.scopes } (c.after ctx s) :=
    (restored_perform c.operation _ fun x _ => hprogress ▸ List.not_mem_nil).after
  exact ⟨hcall.active.trans hactive, hcall.inProgress.trans hprogress,
    hcall.inAscription.trans hascription⟩

/-- A constant whose type is another one, whose value is the first. -/
def eachOther : Source.Module :=
  [.constant
    { span := .nowhere, name := .unplaced "a", ascription := .var (.unplaced "b")
      body := .ofExpr (.int .nowhere 1) },
    .constant
    { span := .nowhere, name := .unplaced "b", ascription := .var (.unplaced "Type")
      body := .ofExpr (.var (.unplaced "a")) }]

/-- Their analysis. -/
def entangled : Context (Buffer Unit) :=
  ⟨.ofEntries (Declarations.entriesOf eachOther) (by decide), {}, Buffer.backend none⟩

/-- The first constant is to be settled. -/
def reentering : List Call :=
  [⟨(entangled.start { evaluator := () }).scopes, .analyze "a"⟩]

/-- The first constant is asked for while its type is being computed. That stops
everything, in the body of the second one: it is declared, and neither defined
nor refused. No mark is left. -/
theorem reentering_restored :
    history (session entangled (entangled.start { evaluator := () }) reentering).transcript "b"
      = [.declare] ∧
    "b" ∉ (session entangled (entangled.start { evaluator := () }) reentering).failed ∧
    "a" ∉ (entangled.start { evaluator := () }).inProgress ∧
    EndsIn (Restored (entangled.start { evaluator := () }))
      (perform entangled (.analyze "a") (entangled.start { evaluator := () })) ∧
    (session entangled (entangled.start { evaluator := () }) reentering).inProgress = [] := by
  have hnew : "a" ∉ (entangled.start { evaluator := () }).inProgress := List.not_mem_nil
  refine ⟨by decide +kernel, by decide +kernel, hnew, ?_, ?_⟩
  · -- the state must not be computed
    generalize entangled.start { evaluator := () } = s at hnew ⊢
    exact (restored_always entangled).1 (.analyze "a") s fun x hx => Operation.analyze.inj hx ▸ hnew
  · exact ((restored_always entangled).2.2 { evaluator := () } reentering).2.1

end Stagewise.Analysis
