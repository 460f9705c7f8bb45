import Stagewise.Proofs.Analysis.Moves
import Stagewise.Proofs.Analysis.Recorded

/-!
# What is retained

An analysis learns and never forgets. Whatever step it takes, and however the
step ends, what was known of the declarations that had a type is known as
before, what was defined is defined, and what expanders have returned is kept
(`Retains`).

For most steps this is plain. A declaration that publishes its type changes what
is known, and may do so in two moves, first the type and then the value. But
nobody examines a declaration whose type is known, so nothing is changed that
was known when the examination began.
-/

namespace Stagewise.Analysis

variable {β α : Type} {ctx : Context β} {s t u : State β} {name : String}
  {demand : String → Check β Ty}

/-- **What one state has, another retains.** -/
structure Retains (s t : State β) : Prop where
  within : Within s t
  defined : s.defined ⊆ t.defined
  cache : ∀ text d, s.cache.get? text = some d → t.cache.get? text = some d

namespace Retains

/-- Nothing has changed of what is retained. -/
theorem of_eq (types : t.types = s.types) (values : t.values = s.values)
    (defined : t.defined = s.defined) (cache : t.cache = s.cache) : Retains s t where
  within := .of_eq types values
  defined := defined ▸ List.Subset.refl _
  cache _ _ h := cache ▸ h

theorem refl (s : State β) : Retains s s := of_eq rfl rfl rfl rfl

/-- What is retained twice is retained. -/
theorem trans (h : Retains s t) (h' : Retains t u) : Retains s u where
  within := h.within.trans h'.within
  defined := List.Subset.trans h.defined h'.defined
  cache text d hd := h'.cache text d (h.cache text d hd)

/-- What is being computed is nothing that is known. -/
theorem progress (s : State β) (inProgress : List String) : Retains s { s with inProgress } :=
  of_eq rfl rfl rfl rfl

/-- The type of a declaration is published, which had none at first. -/
theorem learn (h : Retains s t) (hnew : s.types.lookup name = none) (ty : Ty) (v : Option Value) :
    Retains s (t.learned name ty v) :=
  ⟨h.within.learn hnew ty v, h.defined, h.cache⟩

end Retains

/-! ## Trees -/

theorem retains_send {kind : Request} {subject : Subject} {text : String}
    {run : β → Except Backend.Fault α × β} : Moves Retains (send kind subject text run) :=
  moves_send fun _ _ => .of_eq rfl rfl rfl rfl

/-- A definition adds one declaration to those that are defined. -/
theorem retains_define {subject : Subject} {text : String} :
    Moves Retains (define ctx name subject text) := fun s =>
  .define (.refl s) fun _ _ => ⟨.of_eq rfl rfl, List.subset_append_left .., fun _ _ hd => hd⟩

/-- What is kept of an expansion does not cover what was kept before. -/
theorem retains_expansion (binding : Binding) (text : String) :
    Moves Retains (expansion ctx binding text) := by
  intro s
  cases hget : s.cache.get? text with
  | some d =>
    rw [expansion_of_known hget]
    exact Retains.of_eq rfl rfl rfl rfl
  | none =>
    rw [expansion_of_unknown hget]
    refine (retains_send s).bindOk (fun _ ht => ht) fun d t _ ht => ?_
    refine ⟨ht.within, ht.defined, fun text' d' hd' => ?_⟩
    rw [Cache.get?_insert, ht.cache text' d' hd', Option.some_or]

/-- **The checking of trees retains what there is.** -/
theorem carries_retains (ctx : Context β) : Carries ctx Retains where
  refl := .refl
  trans := .trans
  quiet _ _ _ _ _ _ := .of_eq rfl rfl rfl rfl
  inAscription h := ⟨h.within, h.defined, h.cache⟩
  evaluate _ := retains_send
  expansion := retains_expansion

/-! ## Declarations -/

/-- A built-in publishes its type, and nothing was known of it. -/
theorem retains_examineBuiltin {b : Builtin} (hnew : s.types.lookup b.name = none) :
    EndsIn (Retains s) (examineBuiltin ctx b s) := by
  have hc := carries_retains ctx
  unfold examineBuiltin
  refine hc.bindAt (hc.refl s) retains_send (fun _ ht => ht) fun _ t ht => ?_
  refine hc.bindAt ht retains_define (fun _ hu => hu) fun _ u hu => ?_
  cases b.alias? with
  | some ty => exact hu.learn hnew b.ty (some (.type ty))
  | none => exact hu.learn hnew b.ty none

section

variable (hdemand : ∀ x, Moves Retains (demand x))
include hdemand

/-- **A function publishes its type in the middle of its examination**, when
other declarations were settled already for the sake of its parameters. None of
them can have published it, as it was being computed. -/
theorem retains_examineFunction {f : Source.Function} (hnew : s.types.lookup f.name.text = none) :
    EndsIn (Retains s) (examineFunction ctx demand f s) := by
  have hc := carries_retains ctx
  unfold examineFunction
  refine .modify_bind ?_
  refine hc.bindAt (.progress s _) (hc.inferParams hdemand f.params) (fun _ ht => ht)
    fun params t ht => ?_
  refine hc.bindAt ht (hc.ascribedSource hdemand f.result) (fun _ hu => hu) fun result u hu => ?_
  refine .modify_bind (.modify_bind ?_)
  have hlearn := hu.learn hnew (.functionOf (params.map (·.2)) result) none
  suffices hrest : Moves Retains _ from
    (hrest _).imp fun _ => hc.trans (hc.trans hlearn (.progress _ _))
  refine hc.bind retains_send fun _ => hc.bind (hc.body hdemand params f.body _) fun body => ?_
  refine hc.bind (hc.expect .result result body.ty body.resultSpan) fun _ => ?_
  exact hc.reportIf retains_define

/-- A constant publishes its type at the end, with the value if there is one. -/
theorem retains_examineConstant {c : Source.Constant} (hnew : s.types.lookup c.name.text = none) :
    EndsIn (Retains s) (examineConstant ctx demand c s) := by
  have hc := carries_retains ctx
  unfold examineConstant
  refine .modify_bind ?_
  refine hc.bindAt (.progress s _) (hc.ascribedSource hdemand c.ascription) (fun _ ht => ht)
    fun ty t ht => ?_
  refine hc.bindAt ht retains_send (fun _ hu => hu) fun _ u hu => ?_
  refine hc.bindAt hu (hc.body hdemand [] c.body _) (fun _ hv => hv) fun body v hv => ?_
  refine hc.bindAt hv (hc.expect .constantBody ty body.ty body.resultSpan) (fun _ hw => hw)
    fun _ w hw => ?_
  refine hc.bindAt hw (hc.foldedBlock body) (fun _ hx => hx) fun value x hx => ?_
  cases value with
  | some value =>
    exact hc.bindAt hx retains_define (fun _ hy => hy) fun _ y hy => hy.learn hnew ty (some value)
  | none =>
    exact hc.bindAt hx retains_define (fun _ hy => hy) fun _ y hy => hy.learn hnew ty none

theorem retains_examine (d : Declaration) (hnew : s.types.lookup d.name = none) :
    EndsIn (Retains s) (examine ctx demand d s) := by
  rcases d with b | f | c
  · exact retains_examineBuiltin hnew
  · exact retains_examineFunction hdemand hnew
  · exact retains_examineConstant hdemand hnew

end

/-- **However deep an analysis goes**, it retains what there is. -/
theorem retains_analyzeWithin (depth : Nat) : ∀ d ∈ ctx.declarations.entries, ∀ s : State β,
    s.types.lookup d.name = none → EndsIn (Retains s) (analyzeWithin ctx depth d s) := by
  have hc := carries_retains ctx
  refine hc.analyzeWithin (fun _ _ _ hnew => hnew) (fun d _ demand hdemand s hnew => ?_) depth
  refine .settle (hc.refl s) (fun _ => retains_examine hdemand d hnew) fun t ht _ => ?_
  exact ⟨ht.within, ht.defined, ht.cache⟩

theorem retains_demandWith (depth : Nat) (x : String) :
    Moves Retains (demandWith ctx (analyzeWithin ctx depth) x) :=
  (carries_retains ctx).demandWith
    (fun d hd s _ hnew => retains_analyzeWithin depth d hd s hnew) x

end Stagewise.Analysis
