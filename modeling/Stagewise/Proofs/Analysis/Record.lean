import Stagewise.Proofs.Analysis.Book

/-!
# The record of an analysis

What has been said to the backend, what was found wrong and what values are
known are written down as the analysis goes along, and nobody looks back at
them. `Record` says that they are right all the same: the transcript is attested
and holds accepted requests only, the definitions in it are the declarations
that count as defined, nothing is refused without something being reported, and
the values that are known have the types of their names.

Every act keeps the record (`Record.act`). What may be requested is attested,
whether it is accepted or not (`Due.attests`), which is why the record of an
analysis that stops is right as well.
-/

namespace Stagewise.Analysis

variable {β : Type} {ctx : Context β} {b : β} {s t : State β} {x : String}

/-! ## The transcript -/

/-- What has a type was declared. -/
theorem Book.declared (hbook : Book ctx s) (haccepted : ∀ e ∈ s.transcript, e.accepted = true)
    (hx : (s.types.lookup x).isSome = true) : Declared s.transcript x := by
  obtain ⟨p, hp⟩ := hbook.standing x
  have hdeclare : .declare ∈ history s.transcript x := by
    rw [hp.history]
    have hpublished := hp.published.symm.trans hx
    cases p with
    | untouched | begun | dropped => cases hpublished
    | announced | abandoned => exact List.mem_singleton_self _
    | settled => exact List.mem_cons_self
  obtain ⟨e, he, hkind, habout⟩ := exists_mem_of_mem_history hdeclare
  exact ⟨e, he, hkind, haccepted e he, habout⟩

/-- **What may be requested is attested.** -/
theorem Due.attests {kind : Request} {subject : Subject} {text : String}
    (due : Due ctx s kind subject text) (hbook : Book ctx s)
    (haccepted : ∀ e ∈ s.transcript, e.accepted = true) :
    subject.Reads kind text ∧ ∀ x ∈ subject.mentions, Declared s.transcript x := by
  have hdeclared (x : String) (ty : Ty) (hx : Knows s x ty) : Declared s.transcript x :=
    hbook.declared haccepted (Option.isSome_of_eq_some hx.1)
  cases due with
  | declare top about phase mentions reads =>
    exact ⟨reads, fun x hx => absurd (mentions ▸ hx) List.not_mem_nil⟩
  | define top about phase known reads =>
    refine ⟨reads, fun x hx => ?_⟩
    obtain ⟨ty, hty⟩ := known x hx
    exact hdeclared x ty hty
  | @evaluate e typed type defined =>
    refine ⟨rfl, fun x hx => ?_⟩
    obtain ⟨ty, hty⟩ := Term.WellTyped.of_mem_globals e typed x hx
    exact hdeclared x ty hty
  | @expand m binding expected known =>
    refine ⟨⟨m, expected, rfl, fun x hx => (known x hx).1⟩, fun x hx => ?_⟩
    cases binding with
    | lexical l => cases hx
    | global y =>
      obtain rfl := List.mem_singleton.mp hx
      exact hdeclared x _ (known x rfl).2.1

/-- A request that is not for evaluation is about a declaration. -/
theorem Due.about {kind : Request} {subject : Subject} {text : String}
    (due : Due ctx s kind subject text) (hkind : kind ≠ .evaluate) :
    ∃ x ∈ ctx.declarations.names, subject.declaration? = some x := by
  cases due with
  | declare top about phase mentions reads => exact ⟨_, phase.declared Phase.noConfusion, about⟩
  | define top about phase known reads => exact ⟨_, phase.declared Phase.noConfusion, about⟩
  | evaluate typed type defined => exact absurd rfl hkind
  | expand known => exact absurd rfl hkind

/-!
## Values

A value that is known stands for the declaration wherever that is folded. So
what is known must have the type that everybody believes it to have, and it is
enough to see to this when the value is put down. A built-in has its value from
the start.
-/

/-- **All built-ins are declared**, beside whatever else there is. -/
def Context.HasBuiltins (ctx : Context β) : Prop :=
  ∀ b : Builtin, .builtin b ∈ ctx.declarations.entries

/-- A declaration with the name of a built-in is that built-in. -/
theorem Context.HasBuiltins.eq_builtin (h : ctx.HasBuiltins) {d : Declaration}
    (hd : d ∈ ctx.declarations.entries) {b : Builtin} (hname : d.name = b.name) :
    d = .builtin b :=
  List.inj_on_of_nodup_map ctx.declarations.distinct hd (h b) hname

/-- A value of a name that had none agrees with a type of a name that had
none. -/
theorem agrees_append {values : Values} {types : List (String × Ty)} {ty : Option Ty}
    {v : Option Value} (h : Fold.Agrees values (fun x ty => types.lookup x = some ty))
    (hnew : values.lookup x = none) (hvalue : ∀ w ∈ v, ∃ τ ∈ ty, w.HasType τ)
    (hbuiltin : ∀ b : Builtin, x = b.name → ∀ τ ∈ ty, τ = b.ty) :
    Fold.Agrees ((v.map (x, ·)).toList ++ values)
      (fun y τ => ((ty.map (x, ·)).toList ++ types).lookup y = some τ) where
  values y w τ hw hτ := by
    by_cases hne : y = x
    · subst hne
      cases v with
      | none => exact absurd (hnew.symm.trans hw) (by simp)
      | some w' =>
        obtain ⟨τ', rfl, htyped⟩ := hvalue w' rfl
        simp only [Option.map_some, Option.toList_some, List.singleton_append,
          List.lookup_cons_self, Option.some.injEq] at hw hτ
        exact hw ▸ hτ ▸ htyped
    · rw [lookup_append_of_ne hne] at hw hτ
      exact h.values y w τ hw hτ
  builtins b τ hτ := by
    by_cases hne : b.name = x
    · cases ty with
      | none => exact h.builtins b τ hτ
      | some τ' =>
        rw [hne] at hτ
        simp only [Option.map_some, Option.toList_some, List.singleton_append,
          List.lookup_cons_self, Option.some.injEq] at hτ
        exact hτ ▸ hbuiltin b hne.symm τ' rfl
    · rw [lookup_append_of_ne hne] at hτ
      exact h.builtins b τ hτ

/-! ## The record -/

/-- **The record is right**, with a backend that started in state `b`. -/
structure Record (ctx : Context β) (b : β) (s : State β) : Prop where
  attested : Attested s.transcript
  accepted : ∀ e ∈ s.transcript, e.accepted = true
  about : ∀ e ∈ s.transcript, e.kind ≠ .evaluate →
    ∃ x ∈ ctx.declarations.names, e.subject.declaration? = some x
  backend : s.backend = ctx.backend.after b s.transcript
  defined : s.defined = definitions s.transcript
  reported : s.diagnostics = [] → s.failed = []
  valued : ∀ x v, s.values.lookup x = some v → x ∈ s.defined
  agrees : Fold.Agrees s.values (fun x ty => s.types.lookup x = some ty)

namespace Record

/-- What is known to the declaration at hand agrees with the values. -/
theorem agrees_knows (h : Record ctx b s) : Fold.Agrees s.values (Knows s) where
  values x v ty hv hty := h.agrees.values x v ty hv hty.1
  builtins b ty hty := h.agrees.builtins b ty hty.1

/-- What is not defined has no value yet. -/
theorem lookup_eq_none (h : Record ctx b s) (hx : x ∉ s.defined) : s.values.lookup x = none :=
  Option.eq_none_iff_forall_ne_some.mpr fun v hv => hx (h.valued x v hv)

/-- **The record of one more request** that is accepted. -/
theorem told (h : Record ctx b s) (hbook : Book ctx s) {kind : Request} {subject : Subject}
    {text : String} (due : Due ctx s kind subject text) :
    Attested (s.told ctx kind subject text).transcript ∧
      (∀ e ∈ (s.told ctx kind subject text).transcript, e.accepted = true) ∧
      (∀ e ∈ (s.told ctx kind subject text).transcript, e.kind ≠ .evaluate →
        ∃ x ∈ ctx.declarations.names, e.subject.declaration? = some x) ∧
      (s.told ctx kind subject text).backend
        = ctx.backend.after b (s.told ctx kind subject text).transcript := by
  obtain ⟨hreads, hmentions⟩ := due.attests hbook h.accepted
  refine ⟨h.attested.append hreads hmentions, ?_, ?_, ?_⟩
  · exact List.forall_mem_append.mpr ⟨h.accepted, List.forall_mem_singleton.mpr rfl⟩
  · exact List.forall_mem_append.mpr ⟨h.about, List.forall_mem_singleton.mpr due.about⟩
  · show _ = ctx.backend.after b (s.transcript ++ [_])
    rw [Backend.after_append, ← h.backend]
    rfl

/-- What a declaration is defined by agrees with its type. -/
theorem learns (h : Record ctx b s) (hall : ctx.HasBuiltins) {d : Declaration}
    (hd : d ∈ ctx.declarations.entries) {ty : Option Ty} {v : Option Value}
    (hlearns : Learns s d ty v) :
    (∀ w ∈ v, ∃ τ ∈ ty, w.HasType τ) ∧
      ∀ b : Builtin, d.name = b.name → ∀ τ ∈ ty, τ = b.ty := by
  cases hlearns with
  | builtin c =>
    refine ⟨fun w hw => ⟨c.ty, rfl, ?_⟩, fun b hb τ hτ => ?_⟩
    · obtain ⟨t, ht, rfl⟩ := Option.map_eq_some_iff.mp hw
      have hty : c.ty = .type := by cases c <;> first | rfl | cases ht
      exact hty ▸ .type t
    · obtain rfl : c = b := by simpa using hall.eq_builtin hd hb
      exact (Option.some.inj hτ).symm
  | function f => exact ⟨fun w hw => (by cases hw), fun b hb τ hτ => (by cases hτ)⟩
  | @folded c body value typed hvalue =>
    refine ⟨fun w hw => ⟨body.ty, rfl, ?_⟩, fun b hb => ?_⟩
    · exact Fold.hasType_block h.agrees_knows body typed w (Option.some.inj hw ▸ hvalue)
    · exact absurd (hall.eq_builtin hd hb) (by simp)
  | computed c τ =>
    refine ⟨fun w hw => (by cases hw), fun b hb => ?_⟩
    exact absurd (hall.eq_builtin hd hb) (by simp)

/-- **Every act keeps the record.**

For the acts that say nothing to the backend, the transcript and the values are
untouched. For the others there is one more request, which is attested because
of what has to hold for it to be due (`Due.attests`), and the values change only
when a declaration is defined. What is folded then has the type that is
published with it, since folding a well-typed body gives a value of its type, if
the values that it is folded with have theirs. -/
theorem act (h : Record ctx b s) (hall : ctx.HasBuiltins) (hbook : Book ctx s)
    (hact : Act ctx s t) : Record ctx b t := by
  -- the record grows with what the backend is told, and the other acts leave it alone
  cases hact with
  | move scopes inAscription faithful => exact { h with }
  | resolve known => exact { h with }
  | fold => exact { h with }
  | evaluate due accepted =>
    obtain ⟨hattested, haccepted, habout, hbackend⟩ := h.told hbook due
    exact { h with
      attested := hattested, accepted := haccepted, about := habout, backend := hbackend
      defined := h.defined.trans (definitions_append_of_ne (by simp)).symm }
  | expand due accepted answer =>
    obtain ⟨hattested, haccepted, habout, hbackend⟩ := h.told hbook due
    exact { h with
      attested := hattested, accepted := haccepted, about := habout, backend := hbackend
      defined := h.defined.trans (definitions_append_of_ne (by simp)).symm }
  | reuse => exact { h with }
  | enter summons entry phase => cases summons <;> exact { h with }
  | @declare d subject text ty entry about due publishes accepted =>
    obtain ⟨hattested, haccepted, habout, hbackend⟩ := h.told hbook due
    obtain ⟨top, about', phase, -, -⟩ := due
    obtain rfl := Option.some.inj (about.symm.trans about')
    refine { h with
      attested := hattested, accepted := haccepted, about := habout, backend := hbackend
      defined := h.defined.trans (definitions_append_of_ne (by simp)).symm
      agrees := agrees_append (v := none) h.agrees (h.lookup_eq_none (by simp [phase.defined]))
        (fun w hw => by cases hw) (fun b hb τ hτ => ?_) }
    -- no type is published of a built-in when it is declared
    obtain rfl := hall.eq_builtin entry hb
    rw [show ty = some τ from hτ] at publishes
    cases publishes
  | @define d subject text ty v entry about due learns accepted =>
    obtain ⟨hattested, haccepted, habout, hbackend⟩ := h.told hbook due
    obtain ⟨hvalue, hbuiltin⟩ := h.learns hall entry learns
    obtain - | ⟨top, about', phase, -, -⟩ := due
    obtain rfl := Option.some.inj (about.symm.trans about')
    have hdefined : s.defined ++ [d.name]
        = definitions (s.told ctx .define subject text).transcript := by
      rw [State.told, definitions_append_of_define rfl about, ← h.defined]
    exact { h with
      attested := hattested, accepted := haccepted, about := habout, backend := hbackend
      defined := hdefined
      valued := fun y w hw => by
        by_cases hne : y = d.name
        · exact List.mem_append_right _ (hne ▸ List.mem_singleton_self _)
        · rw [lookup_append_of_ne hne] at hw
          exact List.mem_append_left _ (h.valued y w hw)
      agrees := agrees_append h.agrees (h.lookup_eq_none (by simp [phase.defined])) hvalue
        hbuiltin }
  | refuse top refusal =>
    cases refusal with
    | reported d =>
      refine { h with reported := fun hnil => ?_ }
      exact absurd (List.map_eq_nil_iff.mp hnil) (List.concat_ne_nil _ s.reports)
    | inherited known failed unpublished =>
      refine { h with reported := fun hnil => ?_ }
      rw [h.reported hnil] at failed
      cases failed

/-- **The record is right all along a course.** -/
theorem course (h : Record ctx b s) (hall : ctx.HasBuiltins) (hbook : Book ctx s)
    (hc : Course ctx s t) : Record ctx b t := by
  induction hc with
  | refl => exact h
  | tail hc hact ih => exact ih.act hall (hbook.course hc) hact

end Record

end Stagewise.Analysis
