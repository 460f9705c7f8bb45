import Stagewise.Proofs.Analysis.Cache
import Stagewise.Proofs.Analysis.Congruence
import Stagewise.Proofs.Analysis.Soundness

/-!
# What an analysis has gone through

When an analysis has succeeded, every declaration was examined at some time on
the way, and that succeeded too. Little was known at that time. But what was
known then, of declarations that had a type, is what is known in the end
(`Within`), since types and values are not changed any more when they were
published.

That declarations were examined is kept on record here (`Recorded`), for the
sake of an analysis of the same declarations that goes another way. A step keeps
the records (`Kept`): whatever it defines was examined, or is under examination
still, or was refused.
-/

namespace Stagewise.Analysis

variable {β α γ : Type} {ctx : Context β} {s t u : State β} {name : String}
  {table : String → Except Backend.Fault Data}

/-! ## What is known -/

/-- **What is known in a state is known in another** of the same declarations:
their types, and their values, or that they have none. -/
def Within (s t : State β) : Prop :=
  ∀ x ty, Published s x ty → Published t x ty ∧ t.values.lookup x = s.values.lookup x

/-- The state after the type of a declaration was published, along with its
value if it has one. -/
abbrev State.learned (s : State β) (name : String) (ty : Ty) (v : Option Value) : State β :=
  { s with types := (name, ty) :: s.types, values := (v.map (name, ·)).toList ++ s.values }

namespace Within

theorem of_eq (types : t.types = s.types) (values : t.values = s.values) : Within s t := by
  intro x ty hx
  rw [Published, types, values]
  exact ⟨hx, rfl⟩

/-- What is known stays known from one state to the next. -/
theorem trans (h : Within s t) (h' : Within t u) : Within s u := by
  intro x ty hx
  obtain ⟨ht, hvalue⟩ := h x ty hx
  obtain ⟨hu, hvalue'⟩ := h' x ty ht
  exact ⟨hu, hvalue'.trans hvalue⟩

/-- Something is learned of a declaration that nothing was known of at first. -/
theorem learn (h : Within s t) (hnew : s.types.lookup name = none) (ty : Ty) (v : Option Value) :
    Within s (t.learned name ty v) := by
  intro x ty' hx
  have hne : x ≠ name := by
    rintro rfl
    exact absurd (hnew.symm.trans hx) (by simp)
  obtain ⟨hty, hvalue⟩ := h x ty' hx
  exact ⟨(lookup_append_of_ne (a := some ty) hne).trans hty,
    (lookup_append_of_ne hne).trans hvalue⟩

/-- **Something is learned** of a declaration that nothing was known of. -/
theorem learned (hnew : s.types.lookup name = none) (ty : Ty) (v : Option Value) :
    Within s (s.learned name ty v) := learn (of_eq rfl rfl) hnew ty v

/-- Something is learned that is known in the other state. -/
theorem of_learned (h : Within s t) {ty : Ty} {v : Option Value} (hty : Published t name ty)
    (hvalue : t.values.lookup name = (s.learned name ty v).values.lookup name) :
    Within (s.learned name ty v) t := by
  intro x ty' hx
  by_cases hname : x = name
  · subst hname
    have hty' : (s.learned x ty v).types.lookup x = some ty := List.lookup_cons_self
    obtain rfl : ty' = ty := Option.some.inj (hx.symm.trans hty')
    exact ⟨hty, hvalue⟩
  · obtain ⟨ht, hvalue'⟩ := h x ty' ((lookup_append_of_ne (a := some ty) hname).symm.trans hx)
    exact ⟨ht, hvalue'.trans (lookup_append_of_ne hname).symm⟩

end Within

/-- The scopes in which the examination of a declaration begins. -/
def Context.base (ctx : Context β) : Scopes :=
  { topLevel := ctx.declarations.names, dedup := ctx.options.dedupCaptures }

/-- **A state is tidy**: the replies that are kept are those of a table, what
has a value is defined and is no function, and the scopes are over the names of
declarations. -/
structure Tidy (ctx : Context β) (table : String → Except Backend.Fault Data) (s : State β) :
    Prop where
  cached : ∀ text d, s.cache.get? text = some d → table text = .ok d
  valued : ∀ x v, s.values.lookup x = some v → x ∈ s.defined ∧ ctx.declarations.isFunction x = false
  base : s.scopes.isolated = ctx.base

namespace Tidy

/-- A function has no value. -/
theorem lookup_of_isFunction (hs : Tidy ctx table s)
    (h : ctx.declarations.isFunction name = true) : s.values.lookup name = none := by
  rw [Option.eq_none_iff_forall_ne_some]
  intro v hv
  exact absurd (h.symm.trans (hs.valued name v hv).2) (by simp)

/-- To be defined is what a declaration needs for a value. -/
theorem define (hs : Tidy ctx table s) (name : String) :
    Tidy ctx table { s with defined := s.defined ++ [name] } where
  cached := hs.cached
  valued x v hv := ⟨List.mem_append_left _ (hs.valued x v hv).1, (hs.valued x v hv).2⟩
  base := hs.base

/-- A type is published, with a value only for what is defined and is no
function. -/
theorem learned (hs : Tidy ctx table s) (ty : Ty) {v : Option Value}
    (h : v.isSome = true → name ∈ s.defined ∧ ctx.declarations.isFunction name = false) :
    Tidy ctx table (s.learned name ty v) where
  cached := hs.cached
  valued x w hw := by
    cases v with
    | none => exact hs.valued x w hw
    | some v =>
      by_cases hname : x = name
      · exact hname ▸ h rfl
      · exact hs.valued x w ((lookup_append_of_ne (a := some v) hname).symm.trans hw)
  base := hs.base

/-- A reply is kept. -/
theorem cache (hs : Tidy ctx table s) {text : String} {d : Data} (hreply : table text = .ok d) :
    Tidy ctx table { s with cache := s.cache.insert text d } where
  cached text' d' hget := by
    rw [Cache.get?_insert] at hget
    cases hold : s.cache.get? text' with
    | some d'' =>
      rw [hold, Option.some_or] at hget
      exact Option.some.inj hget ▸ hs.cached text' d'' hold
    | none =>
      rw [hold, Option.none_or] at hget
      split at hget
      · rename_i htext
        exact htext ▸ Option.some.inj hget ▸ hreply
      · cases hget
  valued := hs.valued
  base := hs.base

end Tidy

/-!
## Records

What is put on record of a declaration is a run of its examination, from the
state in which it began to the one in which it ended. Another analysis that
knows what was known then can make the same run. It is no matter that the rest
of the state is different by now.
-/

/-- **A declaration was examined** with success, and what was known in the end
of that is known. -/
inductive Recorded (ctx : Context β) (table : String → Except Backend.Fault Data) (t : State β)
    (d : Declaration) : Prop where
  | intro (depth : Nat) {u v : State β} (fresh : Fresh ctx u d) (tidy : Tidy ctx table u)
    (scopes : u.scopes = ctx.base) (inAscription : u.inAscription = false)
    (active : d.name ∈ u.active)
    (examined : examine ctx (demandWith ctx (analyzeWithin ctx depth)) d u = .ok () v)
    (within : Within v t)

/-- What is on record stays on record while more becomes known. -/
theorem Recorded.mono {d : Declaration} (h : Recorded ctx table s d) (hst : Within s t) :
    Recorded ctx table t d := by
  cases h with
  | intro depth fresh tidy scopes inAscription active examined within =>
    exact .intro depth fresh tidy scopes inAscription active examined (within.trans hst)

/-- **The records are kept** between two states. -/
structure Kept (ctx : Context β) (table : String → Except Backend.Fault Data) (s t : State β) :
    Prop where
  within : Within s t
  tidy : Tidy ctx table s → Tidy ctx table t
  inAscription : t.inAscription = s.inAscription
  active : t.active = s.active
  failed : s.failed ⊆ t.failed
  recorded : Tidy ctx table s → ∀ x ∈ t.defined, x ∉ s.defined → x ∉ t.active → x ∉ t.failed →
    ∃ d ∈ ctx.declarations.entries, d.name = x ∧ Recorded ctx table t d

namespace Kept

/-- Nothing is done that has to do with declarations, be it in another place. -/
theorem move {backend : β} {scopes : Scopes} {transcript : List Exchange} {reports : List Report}
    {inProgress : List String} {resolutions : List Resolution} {moments : List Moment}
    {foldings : List (Term × Value)} {expansions : List (String × Data)}
    (hscopes : scopes.isolated = s.scopes.isolated) :
    Kept ctx table s { s with
      backend, scopes, transcript, reports, inProgress, resolutions, moments, foldings,
      expansions } where
  within := .of_eq rfl rfl
  tidy hs := ⟨hs.cached, hs.valued, hscopes.trans hs.base⟩
  inAscription := rfl
  active := rfl
  failed := List.Subset.refl _
  recorded _ _ hx hnew _ _ := absurd hx hnew

/-- Most of what is written down has nothing to do with the records. -/
theorem still {backend : β} {transcript : List Exchange} {reports : List Report}
    {inProgress : List String} {resolutions : List Resolution} {moments : List Moment}
    {foldings : List (Term × Value)} {expansions : List (String × Data)} :
    Kept ctx table s { s with
      backend, transcript, reports, inProgress, resolutions, moments, foldings, expansions } :=
  move rfl

theorem refl (s : State β) : Kept ctx table s s := still

/-- **Records are kept by one step and then by another.** What the first has
defined and left under examination, the second has left there or put on
record. -/
theorem trans (h : Kept ctx table s t) (h' : Kept ctx table t u) : Kept ctx table s u where
  within := h.within.trans h'.within
  tidy hs := h'.tidy (h.tidy hs)
  inAscription := h'.inAscription.trans h.inAscription
  active := h'.active.trans h.active
  failed := List.Subset.trans h.failed h'.failed
  recorded hs x hx hnew hactive hfailed := by
    by_cases hmid : x ∈ t.defined
    · obtain ⟨d, hd, hname, hrecord⟩ := h.recorded hs x hmid hnew (h'.active ▸ hactive)
        fun hmem => hfailed (h'.failed hmem)
      exact ⟨d, hd, hname, hrecord.mono h'.within⟩
    · exact h'.recorded (h.tidy hs) x hx hmid hactive hfailed

/-- **A declaration is defined** while it is under examination. -/
theorem define (h : name ∈ s.active) :
    Kept ctx table s { s with defined := s.defined ++ [name] } where
  within := .of_eq rfl rfl
  tidy hs := hs.define name
  inAscription := rfl
  active := rfl
  failed := List.Subset.refl _
  recorded _ x hx hnew hactive _ := by
    obtain hx | hx := List.mem_append.mp hx
    · exact absurd hx hnew
    · exact absurd (List.mem_singleton.mp hx ▸ h) hactive

theorem learned (hnew : s.types.lookup name = none) (ty : Ty) {v : Option Value}
    (h : v.isSome = true → name ∈ s.defined ∧ ctx.declarations.isFunction name = false) :
    Kept ctx table s (s.learned name ty v) where
  within := .learned hnew ty v
  tidy hs := hs.learned ty h
  inAscription := rfl
  active := rfl
  failed := List.Subset.refl _
  recorded _ _ hx hnew _ _ := absurd hx hnew

/-- A reply is kept. -/
theorem cache {text : String} {d : Data} (hreply : table text = .ok d) :
    Kept ctx table s { s with cache := s.cache.insert text d } where
  within := .of_eq rfl rfl
  tidy hs := hs.cache hreply
  inAscription := rfl
  active := rfl
  failed := List.Subset.refl _
  recorded _ _ hx hnew _ _ := absurd hx hnew

/-- To read an ascription is to be in another place for a while. -/
theorem ascription (h : Kept ctx table { s with inAscription := true } t) :
    Kept ctx table s { t with inAscription := s.inAscription } where
  within := h.within
  tidy hs := by
    have ht := h.tidy ⟨hs.cached, hs.valued, hs.base⟩
    exact ⟨ht.cached, ht.valued, ht.base⟩
  inAscription := rfl
  active := h.active
  failed := h.failed
  recorded hs x hx hnew hactive hfailed := by
    obtain ⟨d, hd, hname, hrecord⟩ :=
      h.recorded ⟨hs.cached, hs.valued, hs.base⟩ x hx hnew hactive hfailed
    exact ⟨d, hd, hname, hrecord.mono (.of_eq rfl rfl)⟩

/-- **A declaration is settled**: it was examined, or it is refused. -/
theorem resume {failed : List String} (h : Kept ctx table (s.enter name) t)
    (hfailed : t.failed ⊆ failed)
    (hname : Tidy ctx table s → name ∉ failed → ∃ d ∈ ctx.declarations.entries, d.name = name ∧
      Recorded ctx table { s.resume name t with failed } d) :
    Kept ctx table s { s.resume name t with failed } where
  within := h.within
  tidy hs := by
    have ht := h.tidy ⟨hs.cached, hs.valued, hs.base⟩
    exact ⟨ht.cached, ht.valued, hs.base⟩
  inAscription := rfl
  active := congrArg List.tail h.active
  failed := List.Subset.trans h.failed hfailed
  recorded hs x hx hnew hactive hmem := by
    by_cases hx' : x = name
    · subst hx'
      exact hname hs hmem
    have hactive' : x ∉ t.active := by
      rw [h.active, List.mem_cons, not_or]
      refine ⟨hx', fun hmem => hactive ?_⟩
      rwa [show (s.resume name t).active = s.active from congrArg List.tail h.active]
    obtain ⟨d, hd, hname, hrecord⟩ := h.recorded ⟨hs.cached, hs.valued, hs.base⟩ x hx hnew hactive'
      fun hx => hmem (hfailed hx)
    exact ⟨d, hd, hname, hrecord.mono (.of_eq rfl rfl)⟩

end Kept

/-!
## Steps

A step that stops the analysis keeps no records, as it leaves declarations in
the middle of their examination and will not come back to them. All that is
asked of it is that nothing comes after it. Therefore what a step does to the
records is stated for those that survive.
-/

/-- What holds of the state in which a step ends, unless the analysis is stopped
there. -/
def Survives (P : State β → Prop) : EStateM.Result Halt (State β) α → Prop
  | .ok _ t | .error .diagnostics t => P t
  | .error (.fatal _) _ => True

namespace Survives

/-- A step that succeeds survives. -/
theorem of_eq_ok {P : State β → Prop} {r : EStateM.Result Halt (State β) α} {a : α}
    (h : Survives P r) (hr : r = .ok a t) : P t := by
  subst hr
  exact h

theorem leaving {P P' : State β → Prop} {leave : State β → State β}
    {r : EStateM.Result Halt (State β) α} (h : Survives P r) (hleave : ∀ t, P t → P' (leave t)) :
    Survives P' (leaving leave r) := by
  rcases r with ⟨a, t⟩ | ⟨- | f, t⟩
  · exact hleave t h
  · exact hleave t h
  · trivial

/-- **A sequence keeps the records.** -/
theorem bind {x : Check β α} {f : α → Check β γ} (h : Survives (Kept ctx table s) (x s))
    (hnext : ∀ a t, x s = .ok a t → Kept ctx table s t → Survives (Kept ctx table t) (f a t)) :
    Survives (Kept ctx table s) ((x >>= f) s) := by
  rcases hx : x s with ⟨a, t⟩ | ⟨- | e, t⟩
  · rw [hx] at h
    have hnext := hnext a t hx h
    rw [bind_of_ok hx]
    generalize f a t = r at hnext
    rcases r with ⟨c, u⟩ | ⟨- | e, u⟩
    · exact Kept.trans h hnext
    · exact Kept.trans h hnext
    · trivial
  · rw [hx] at h
    rw [bind_of_error hx]
    exact h
  · rw [bind_of_error hx]
    trivial

end Survives

/-- **What is settled goes on record**, if it was examined with success. -/
theorem survives_settle {d : Declaration} {depth : Nat} (h : Fresh ctx s d)
    (hexamine : Survives (Kept ctx table (s.enter d.name))
      (examine ctx (demandWith ctx (analyzeWithin ctx depth)) d (s.enter d.name))) :
    Survives (Kept ctx table s) (analyzeWithin ctx (depth + 1) d s) := by
  unfold analyzeWithin
  by_cases hsettled : d.name ∈ s.defined ∨ d.name ∈ s.failed
  · rw [settle_of_settled hsettled]
    exact Kept.refl s
  rw [settle_of_new hsettled]
  rcases hx : examine ctx (demandWith ctx (analyzeWithin ctx depth)) d (s.enter d.name) with
    ⟨a, t⟩ | ⟨- | f, t⟩
  · rw [hx] at hexamine
    refine Kept.resume (t := t) hexamine (List.Subset.refl _) fun hs _ => ⟨d, h.entry, rfl, ?_⟩
    exact .intro (u := s.enter d.name) depth ⟨h.entry, h.free, h.new⟩
      ⟨hs.cached, hs.valued, hs.base⟩ hs.base rfl List.mem_cons_self hx (.of_eq rfl rfl)
  · rw [hx] at hexamine
    refine Kept.resume (t := t) hexamine (List.subset_append_left ..) fun _ hname => ?_
    exact absurd (List.mem_append_right _ List.mem_cons_self) hname
  · trivial

/-- To answer for a declaration keeps the records. -/
theorem survives_answer (x : String) : Survives (Kept ctx table s) (answer x s) := by
  cases hty : s.types.lookup x with
  | some ty =>
    rw [answer_of_published hty]
    exact Kept.refl s
  | none =>
    by_cases hfailed : x ∈ s.failed
    · rw [answer_of_failed hty hfailed]
      exact Kept.refl s
    · rw [answer_of_missing hty hfailed]
      trivial

/-- **Asking for types keeps the records** if settling declarations does. -/
theorem survives_demandWith {analyze : Declaration → Check β Unit}
    (h : ∀ s d, Fresh ctx s d → Survives (Kept ctx table s) (analyze d s)) (s : State β)
    (x : String) : Survives (Kept ctx table s) (demandWith ctx analyze x s) := by
  cases asked ctx s x with
  | published hty =>
    rw [demandWith_of_published hty]
    exact Kept.refl s
  | failed hnew hfailed =>
    rw [demandWith_of_failed hnew hfailed]
    exact Kept.refl s
  | inProgress hnew hfailed hprogress =>
    rw [demandWith_of_inProgress hnew hfailed hprogress]
    trivial
  | undeclared hnew hfailed hprogress hfind =>
    rw [demandWith_of_undeclared hnew hfailed hprogress hfind]
    trivial
  | fresh hd hnew hfailed hprogress =>
    rename_i d
    rw [demandWith_of_fresh hnew hfailed hprogress hd]
    exact (h s d ⟨hd, hprogress, hnew⟩).bind fun _ t _ _ => survives_answer d.name

end Stagewise.Analysis
