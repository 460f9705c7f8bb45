import Stagewise.Proofs.Analysis.Replay
import Stagewise.Proofs.Analysis.Settle

/-!
# Declarations in another order

The examination of a declaration is replayed as every step is, and so the types
and values that are published in it are those that the first analysis has
published. It follows that asking for a type is replayed, whether or not the
declaration has to be settled for it: what is said of it is what is known in the
end (`replay_demandWith`).

If every declaration is on record then the second analysis can settle whatever
it comes to, in whatever order (`repeats_analyzeWithin`).
-/

namespace Stagewise.Analysis.Reordering

variable {β : Type} {r : Reordering β} {s t : State β} {Q : State β → Prop}

/-! ## One declaration -/

theorem replays_mark (name : String) : r.Replays Q s (mark name) (mark name) :=
  .of_ok rfl .still fun _ _ _ _ hbeside => ⟨_, rfl, hbeside.move rfl rfl⟩

theorem replays_unmark (name : String) : r.Replays Q s (unmark name) (unmark name) :=
  .of_ok rfl .still fun _ _ _ _ hbeside => ⟨_, rfl, hbeside.move rfl rfl⟩

/-- Both analyses declare, and the backend takes what it is told. -/
theorem replays_declare (subject : Subject) (text : String) :
    r.Replays Q s (declare r.first subject text) (declare r.second subject text) :=
  replays_send fun b b' => (r.replies.declare _ b).trans (r.replies'.declare _ b').symm

/-- **Both analyses define.** The second one may find that the declaration was
defined before, and then it has met a defect. Otherwise the backend takes it.
The texts need not be the same. -/
theorem replays_define {name : String} (hactive : name ∈ s.active) (subject subject' : Subject)
    (text text' : String) :
    r.Replays Q s (define r.first name subject text) (define r.second name subject' text') := by
  by_cases hdefined : name ∈ s.defined
  · exact .of_error (define_of_mem r.first hdefined subject text) (fun h => by cases h) _
  · have hsend : r.Replays (fun _ => True) { s with defined := s.defined ++ [name] }
        (send .define subject text (r.first.backend.define text))
        (send .define subject' text' (r.second.backend.define text')) :=
      replays_send fun b b' => (r.replies.define _ b).trans (r.replies'.define _ b').symm
    refine hsend.after (.define hactive) (define_of_not_mem r.first hdefined subject text)
      fun s' _ hbeside => ?_
    by_cases hdefined' : name ∈ s'.defined
    · exact .inr ⟨_, define_of_mem r.second hdefined' subject' text'⟩
    · exact .inl ⟨{ s' with defined := s'.defined ++ [name] }, trivial,
        ⟨hbeside.scopes, hbeside.inAscription, hbeside.accords.define name⟩,
        define_of_not_mem r.second hdefined' subject' text'⟩

/-- **Something is learned** of a declaration, by both analyses. If the first
one has a value for it then so has the second. -/
theorem replays_learned {name : String} {ty : Ty} {v : Option Value} {x : Check β Unit}
    (hx : ∀ s, x s = .ok () (s.learned name ty v)) (hnew : s.types.lookup name = none)
    (hvalue : v.isSome = true → name ∈ s.defined ∧ r.first.declarations.isFunction name = false)
    (hvalue' : ∀ s', Q s' → v.isSome = true →
      name ∈ s'.defined ∧ r.second.declarations.isFunction name = false)
    (hnone : Tidy r.first r.table s → ∀ s', Q s' → r.Accords s' → v = none →
      s.values.lookup name = s'.values.lookup name) : r.Replays Q s x x := by
  refine .of_ok (hx s) (.learned hnew ty hvalue) fun hs hwithin s' hs' hbeside => ?_
  have haccords := hbeside.accords
  obtain ⟨hty, hlast⟩ := hwithin name ty List.lookup_cons_self
  refine ⟨_, hx s', hbeside.scopes, hbeside.inAscription,
    haccords.tidy.learned ty (hvalue' s' hs'), haccords.within.of_learned hty (hlast.trans ?_),
    haccords.failed, haccords.reports⟩
  cases v with
  | none => exact hnone hs s' hs' haccords rfl
  | some v => exact List.lookup_cons_self.trans List.lookup_cons_self.symm

/-- What was defined just now has no value yet, as only what is defined has
one. -/
theorem lookup_of_define {ctx : Context β} {table : String → Except Backend.Fault Data}
    {name : String} {subject : Subject} {text : String} (hs : Tidy ctx table s)
    (h : define ctx name subject text s = .ok () t) : t.values.lookup name = none := by
  obtain ⟨hnew, -, -, hvalues⟩ := of_define h
  rw [hvalues, Option.eq_none_iff_forall_ne_some]
  exact fun v hv => hnew (hs.valued name v hv).1

/-- **A declaration is defined and then its type is published**, as of a
built-in or a constant. -/
theorem replays_defineLearned {d : Declaration} (hd : d ∈ r.first.declarations.entries)
    (hconstant : d.isFunction = false) (hactive : d.name ∈ s.active)
    (hnew : s.types.lookup d.name = none) {subject subject' : Subject} {text text' : String}
    {ty : Ty} {v : Option Value} {x : Check β Unit}
    (hx : ∀ s, x s = .ok () (s.learned d.name ty v)) :
    r.Replays Q s (define r.first d.name subject text >>= fun _ => x)
      (define r.second d.name subject' text' >>= fun _ => x) := by
  have hfirst := (Declarations.isFunction_name hd).trans hconstant
  have hsecond := (Declarations.isFunction_name (r.entries.mem_iff.mp hd)).trans hconstant
  refine .bindWith (R := fun _ t t' => t.values.lookup d.name = none ∧ d.name ∈ t'.defined ∧
    t'.values.lookup d.name = none) (replays_define hactive ..)
    (fun _ t s' t' ht hs _ hs' ht' => ?_) fun _ t ht _ => ?_
  · exact ⟨lookup_of_define hs ht, (of_define ht').2.1, lookup_of_define hs'.tidy ht'⟩
  · obtain ⟨-, hdefined, htypes, -⟩ := of_define ht
    exact replays_learned hx (htypes ▸ hnew) (fun _ => ⟨hdefined, hfirst⟩)
      (fun s' hs' _ => ⟨hs'.2.1, hsecond⟩) fun _ s' hs' _ _ => hs'.1.trans hs'.2.2.symm

/-- A built-in is examined alike, whatever was examined before it. -/
theorem replays_examineBuiltin {b : Builtin} (h : Fresh r.first s (.builtin b))
    (hactive : b.name ∈ s.active) :
    r.Replays Q s (examineBuiltin r.first b) (examineBuiltin r.second b) := by
  unfold examineBuiltin
  refine .bind (replays_declare ..) fun _ t ht _ => ?_
  obtain ⟨-, rfl⟩ := declare_proceeds.of_eq_ok ht
  cases b.alias? with
  | none =>
    refine replays_defineLearned (d := .builtin b) (v := none)
      (x := publish b.name b.ty >>= fun _ => pure ()) h.entry rfl ?_ ?_ fun _ => rfl
    · exact hactive
    · exact h.new
  | some ty =>
    refine replays_defineLearned (d := .builtin b) (v := some (.type ty))
      (x := publish b.name b.ty >>= fun _ => remember b.name (.type ty)) h.entry rfl ?_ ?_
      fun _ => rfl
    · exact hactive
    · exact h.new

section

variable {demand demand' : String → Check β Ty}

/-- **A function is replayed.** Its type is published when it is declared, and
it is the type that the first analysis has published. From there on the two may
be interrupted by other declarations, at different places, and are in the same
place again afterwards. -/
theorem replays_examineFunction (hd : Demands r.first demand) (hd' : Demands r.second demand')
    (hdemand : ∀ x, r.Replay (demand x) (demand' x)) {f : Source.Function}
    (h : Fresh r.first s (.source (.function f))) (hactive : f.name.text ∈ s.active) :
    r.Replays Q s (examineFunction r.first demand f) (examineFunction r.second demand' f) := by
  have hc := congruence_replay r
  have hcorresponds := corresponds_replay hd hd' hdemand
  have hp := provides_expand hd
  have hfirst := Declarations.isFunction_name h.entry
  have hsecond := Declarations.isFunction_name (r.entries.mem_iff.mp h.entry)
  unfold examineFunction
  rw [r.options]
  refine .bind (replays_mark _) fun _ t ht hkept => ?_
  cases ht
  refine .bind (hc.inferParams hcorresponds f.params _) fun params u hu hku => ?_
  have hmarked := ((inferParams_proceeds hp rfl f.params).of_eq_ok hu).1
  replace hkept := hkept.trans hku
  refine .bind (hcorresponds.ascribed f.result (hc.infer hcorresponds f.result _) u)
    fun result v hv hkv => ?_
  replace hmarked := hmarked.trans ((ascribed_proceeds rfl fun w hw =>
    infer_proceeds hp hw f.result _).of_eq_ok hv).1
  replace hkept := hkept.trans hkv
  -- functions have no values
  refine .bind (replays_learned (v := none) (fun _ => rfl) (h.unpublished hmarked)
    (fun h => by cases h) (fun _ _ h => by cases h) fun hs s' _ hs' _ => ?_) fun _ w _ hkw => ?_
  · exact (hs.lookup_of_isFunction hfirst).trans (hs'.tidy.lookup_of_isFunction hsecond).symm
  replace hkept := hkept.trans hkw
  refine .bind (replays_unmark _) fun _ x _ hkx => ?_
  replace hkept := hkept.trans hkx
  refine .bind (replays_declare ..) fun _ y _ hky => ?_
  replace hkept := hkept.trans hky
  refine .bind (hc.inScope (hc.bind (hc.introduceParams params) fun _ =>
    hc.checkBlock hcorresponds f.body _) y) fun body z _ hkz => ?_
  replace hkept := hkept.trans hkz
  refine .bind (replays_expect ..) fun _ z' hz' _ => ?_
  obtain rfl := eq_of_expect hz'
  exact .reportIf (replays_define (hkept.active ▸ hactive) ..)

/-- **A constant is replayed.** What its body folds to depends on the values of
what it refers to. These have types by then, in both analyses, and so the values
are known to both or to neither. -/
theorem replays_examineConstant (hd : Demands r.first demand) (hd' : Demands r.second demand')
    (hdemand : ∀ x, r.Replay (demand x) (demand' x)) {c : Source.Constant}
    (h : Fresh r.first s (.source (.constant c))) (hactive : c.name.text ∈ s.active) :
    r.Replays Q s (examineConstant r.first demand c) (examineConstant r.second demand' c) := by
  have hc := congruence_replay r
  have hcorresponds := corresponds_replay hd hd' hdemand
  have hp := provides_expand hd
  unfold examineConstant
  refine .bind (replays_mark _) fun _ t ht hkept => ?_
  cases ht
  refine .bind (hcorresponds.ascribed c.ascription (hc.infer hcorresponds c.ascription _) _)
    fun ty u hu hku => ?_
  have hmarked := ((ascribed_proceeds rfl fun w hw =>
    infer_proceeds hp hw c.ascription _).of_eq_ok hu).1
  replace hkept := hkept.trans hku
  refine .bind (replays_declare ..) fun _ v hv hkv => ?_
  replace hmarked := hmarked.trans (declare_proceeds.of_eq_ok hv).1
  replace hkept := hkept.trans hkv
  refine .bindWith (R := fun body _ t' => ∀ x ∈ body.globals, ∃ ty, Published t' x ty)
    (hc.inScope (hc.checkBlock hcorresponds c.body _) v) (fun _ _ _ _ _ _ _ _ ht' =>
      (published_of_inScope (provides_expand hd') ht').2) fun body w hw hkw => ?_
  obtain ⟨hvw, hbody⟩ := published_of_inScope hp hw
  replace hmarked := hmarked.trans hvw
  replace hkept := hkept.trans hkw
  refine .bindWith (R := fun _ _ t' => ∀ x ∈ body.globals, ∃ ty, Published t' x ty)
    (replays_expect ..) (fun _ _ s' t' _ _ hs' _ ht' => eq_of_expect ht' ▸ hs') fun _ w' hw' _ => ?_
  obtain rfl := eq_of_expect hw'
  refine .bind (replays_foldedBlock hbody) fun value x hx hkx => ?_
  replace hmarked := hmarked.trans ((foldedBlock_proceeds body).of_eq_ok hx).1
  replace hkept := hkept.trans hkx
  -- the constant has no type until its value was looked for
  have hnew : x.types.lookup c.name.text = none := h.unpublished hmarked
  have hactive' : c.name.text ∈ x.active := hkept.active ▸ hactive
  cases value with
  | none =>
    exact replays_defineLearned (d := .source (.constant c)) (v := none)
      (x := publish c.name.text ty) h.entry rfl hactive' hnew fun _ => rfl
  | some v =>
    exact replays_defineLearned (d := .source (.constant c)) (v := some v)
      (x := remember c.name.text v >>= fun _ => publish c.name.text ty) h.entry rfl hactive' hnew
      fun _ => rfl

/-- **The examination of a declaration is replayed** if asking for types is. -/
theorem replays_examine (hd : Demands r.first demand) (hd' : Demands r.second demand')
    (hdemand : ∀ x, r.Replay (demand x) (demand' x)) {d : Declaration} (h : Fresh r.first s d)
    (hactive : d.name ∈ s.active) :
    r.Replays Q s (examine r.first demand d) (examine r.second demand' d) := by
  rcases d with b | f | c
  · exact replays_examineBuiltin h hactive
  · exact replays_examineFunction hd hd' hdemand h hactive
  · exact replays_examineConstant hd hd' hdemand h hactive

end

/-!
## On demand

What a declaration leads to depends on what was settled before, so this is where
the two analyses differ. The first one has settled the declaration at some time,
and there is a record of it. When the second one asks for the type then the
declaration is settled now, by a replay of that record, or it was settled
already, and in both cases the type is the one on record.
-/

/-- **Asking for types is replayed**, since the type that is published is the
one that the first analysis has come to know. -/
theorem replay_demandWith {analyze analyze' : Declaration → Check β Unit}
    (hd : Demands r.first (demandWith r.first analyze))
    (hkeeps : ∀ s d, Fresh r.first s d → Survives (Kept r.first r.table s) (analyze d s))
    (hrepeats : ∀ d ∈ r.second.declarations.entries, ∀ s', r.Accords s' →
      r.Repeats () s' (analyze' d s')) (x : String) :
    r.Replay (demandWith r.first analyze x) (demandWith r.second analyze' x) := by
  intro s
  refine ⟨survives_demandWith hkeeps s x, fun a t ht hs hwithin s' _ hbeside => ?_⟩
  obtain ⟨-, hscopes, hpublished⟩ := (hd s x).of_eq_ok ht
  have hkept := (survives_demandWith hkeeps s x).of_eq_ok ht
  have hsame (t' : State β) (ht' : r.Beside s t') : r.Beside t t' :=
    ⟨hscopes ▸ ht'.scopes, ht'.inAscription.trans hkept.inAscription.symm, ht'.accords⟩
  have htype {t' : State β} {ty : Ty} (ht' : r.Accords t') (hty : Published t' x ty) : ty = a :=
    Option.some.inj ((ht'.within x ty hty).1.symm.trans (hwithin x a hpublished).1)
  have hnil (t' : State β) (ht' : r.Accords t') : x ∉ t'.failed := by
    rw [ht'.failed]
    exact List.not_mem_nil
  -- in the second run the declaration may be at hand, in progress or not there yet, whatever it was
  -- in the first
  cases asked r.second s' x with
  | published hty =>
    obtain rfl := htype hbeside.accords hty
    rw [demandWith_of_published hty]
    exact .same (hsame s' hbeside)
  | failed hnew hfailed => exact absurd hfailed (hnil s' hbeside.accords)
  | inProgress hnew hfailed hprogress =>
    rw [demandWith_of_inProgress hnew hfailed hprogress]
    exact .early hbeside.accords.failed
  | undeclared hnew hfailed hprogress hfind =>
    rw [demandWith_of_undeclared hnew hfailed hprogress hfind]
    exact .early hbeside.accords.failed
  | fresh hentry hnew hfailed hprogress =>
    rename_i d
    rw [demandWith_of_fresh hnew hfailed hprogress hentry]
    refine (hrepeats d hentry s' hbeside.accords).bind fun t' _ ht' => ?_
    cases hty : t'.types.lookup d.name with
    | some ty =>
      obtain rfl := htype ht'.accords hty
      rw [answer_of_published hty]
      exact .same (hsame t' (hbeside.trans ht'))
    | none =>
      rw [answer_of_missing hty (hnil t' ht'.accords)]
      exact .early ht'.accords.failed

/-- **Settling a declaration keeps the records**, with room for any number of
declarations. -/
theorem survives_analyzeWithin (r : Reordering β) (depth : Nat) (s : State β) (d : Declaration)
    (h : Fresh r.first s d) :
    Survives (Kept r.first r.table s) (analyzeWithin r.first depth d s) := by
  induction depth generalizing s d with
  | zero => trivial
  | succ depth ih =>
    -- for what is kept by the first analysis, the second may do nothing at all
    have hnothing (d : Declaration) (_ : d ∈ r.second.declarations.entries) (s' : State β)
        (hs' : r.Accords s') : r.Repeats () s' (analyzeWithin r.second 0 d s') := .early hs'.failed
    have hdemand := replay_demandWith (provides_demandWith r.first depth).demands ih hnothing
    have hexamine := replays_examine (s := s.enter d.name) (Q := fun _ => True)
      (provides_demandWith r.first depth).demands (provides_demandWith r.second 0).demands hdemand
      ⟨h.entry, h.free, h.new⟩ List.mem_cons_self
    exact survives_settle h hexamine.keeps

/-- Both begin in the same scopes, but for the order of names. -/
theorem like_base (r : Reordering β) : r.first.base.Like r.second.base where
  topLevel _ := (r.entries.map Declaration.name).mem_iff.symm
  dedup := congrArg Options.dedupCaptures r.options
  inner := rfl
  root := rfl

/-- **Settling a declaration comes to what is on record**, with room for any
number of declarations. -/
theorem repeats_analyzeWithin
    (hrecorded : ∀ d ∈ r.first.declarations.entries, Recorded r.first r.table r.last d)
    (depth : Nat) (d : Declaration) (hd : d ∈ r.second.declarations.entries) (s' : State β)
    (hs' : r.Accords s') : r.Repeats () s' (analyzeWithin r.second depth d s') := by
  induction depth generalizing s' d with
  | zero => exact .early hs'.failed
  | succ depth ih =>
    unfold analyzeWithin
    by_cases hsettled : d.name ∈ s'.defined ∨ d.name ∈ s'.failed
    · rw [settle_of_settled hsettled]
      exact .same ⟨.refl _, rfl, hs'⟩
    rw [settle_of_new hsettled]
    cases hrecorded d (r.entries.mem_iff.mpr hd) with
    | @intro n u v fresh tidy scopes inAscription active examined within =>
      have hbase := hs'.tidy.base
      have hscopes : u.scopes.Like s'.scopes.isolated := by
        rw [scopes, hbase]
        exact r.like_base
      have hbeside : r.Beside u (s'.enter d.name) :=
        ⟨hscopes, inAscription.symm, hs'.move rfl⟩
      have hdemand := replay_demandWith (provides_demandWith r.first n).demands
        (r.survives_analyzeWithin n) ih
      have hagain := (replays_examine (Q := fun _ => True) (provides_demandWith r.first n).demands
        (provides_demandWith r.second depth).demands hdemand fresh active).repeats () v examined
        tidy within _ trivial hbeside
      generalize examine r.second (demandWith r.second (analyzeWithin r.second depth)) d
        (s'.enter d.name) = y at hagain ⊢
      cases hagain with
      | same hv =>
        exact .same ⟨.refl _, rfl, hv.accords.move (hbase.trans hv.accords.tidy.base.symm)⟩
      | early hfailed => exact .early hfailed

end Stagewise.Analysis.Reordering
