import Stagewise.Proofs.Analysis.Record

/-!
# What is known of declarations

The types and the values of declarations are two tables, written in different
places. A value is put down when a constant is defined, and its type at that or
before. What is known is **sound** at some moment if every value belongs to a
declaration whose type is known, and has that type.

An analysis goes on from a state to others that **extend** it (`Extends`). What
is known stays known, a type that is being computed is not published by anybody
else, and if what was known was sound, at every moment there was, then it still
is. This is so from whatever state the analysis starts, for nothing in it
depends on how that state came about.

What is known would be of no use if an analysis could stop on its account. It
cannot: if it is stopped by the backend then the last request was refused, or it
was an ascription that was evaluated, and the reply was no type (`Blames`).
-/

namespace Stagewise

namespace Analysis

variable {β : Type} {ctx : Context β} {b : β} {s t u : State β} {x : String}

/-!
## Sound moments

What is folded depends on what is known at that moment, and so soundness is
asked of every moment that was noted, not only of the last. The moments are part
of the state for this reason alone.
-/

/-- **What is known at a moment is sound**: every value is one of a declaration
that has a type, and it has that type. -/
def Moment.Sound (names : List String) (m : Moment) : Prop :=
  ∀ x v, (x, v) ∈ m.values → x ∈ names ∧ ∃ ty, m.types.lookup x = some ty ∧ v.HasType ty

/-- **A type was published** for a name. -/
def Published (s : State β) (x : String) (ty : Ty) : Prop := s.types.lookup x = some ty

/-- **The analysis is informed**: what it knows is sound, and was at every
moment, the built-ins have the types they should have, and the backend is in the
state that the requests have led to. -/
structure Informed (ctx : Context β) (b : β) (s : State β) : Prop where
  now : s.now.Sound ctx.declarations.names
  moments : ∀ m ∈ s.moments, m.Sound ctx.declarations.names
  builtins : ∀ (c : Builtin) (ty : Ty), Published s c.name ty → ty = c.ty
  backend : s.backend = ctx.backend.after b s.transcript

namespace Informed

/-- What is known can be folded with. -/
theorem agrees (h : Informed ctx b s) : Fold.Agrees s.values (Published s) where
  values y v ty hv hty := by
    obtain ⟨l, l', hvalues, -⟩ := List.lookup_eq_some_iff.mp hv
    have hmem : (y, v) ∈ s.values := by simp [hvalues]
    obtain ⟨-, ty', hty', htyped⟩ := h.now y v hmem
    obtain rfl := Option.some.inj (hty.symm.trans hty')
    exact htyped
  builtins := h.builtins

/-- Nobody is misinformed by a state where the same is known. -/
theorem of_same (h : Informed ctx b s) (types : t.types = s.types) (values : t.values = s.values)
    (transcript : t.transcript = s.transcript) (backend : t.backend = s.backend)
    (moments : ∀ m ∈ t.moments, m = s.now ∨ m ∈ s.moments) : Informed ctx b t where
  now := by
    rw [State.now, types, values]
    exact h.now
  moments m hm := by
    obtain rfl | hm := moments m hm
    · exact h.now
    · exact h.moments m hm
  builtins := by
    unfold Published
    rw [types]
    exact h.builtins
  backend := by rw [backend, transcript, h.backend]

/-- A request is made, whatever comes of it. -/
theorem request (h : Informed ctx b s) (kind : Request) (subject : Subject) (text : String)
    (accepted : Bool) :
    Informed ctx b { s with
      backend := (ctx.backend.respond kind text s.backend).2
      transcript := s.transcript ++ [⟨kind, text, subject, accepted⟩]
      moments := s.now :: s.moments } where
  now := h.now
  moments := List.forall_mem_cons.mpr ⟨h.now, h.moments⟩
  builtins := h.builtins
  backend := by
    rw [Backend.after_append, ← h.backend]

/-- **The type of a declaration is published**, and maybe its value. -/
theorem learn (h : Informed ctx b s) (hall : ctx.HasBuiltins) {d : Declaration}
    (entry : d ∈ ctx.declarations.entries) (hnew : s.types.lookup d.name = none) {ty : Ty}
    {v : Option Value} (hvalue : ∀ w ∈ v, w.HasType ty)
    (hbuiltin : ∀ c, d = .builtin c → ty = c.ty) :
    Informed ctx b { s with
      types := (d.name, ty) :: s.types
      values := (v.map (d.name, ·)).toList ++ s.values } where
  now y w hw := by
    obtain hw | hw := List.mem_append.mp hw
    · obtain ⟨w', hw', heq⟩ := Option.map_eq_some_iff.mp (Option.mem_toList.mp hw)
      cases heq
      exact ⟨List.mem_map.mpr ⟨d, entry, rfl⟩, ty, List.lookup_cons_self, hvalue w hw'⟩
    · -- who had a value had a type, so it is not the one that gets its type now
      obtain ⟨hy, ty', hty', htyped⟩ := h.now y w hw
      have hne : y ≠ d.name := by
        rintro rfl
        exact absurd (hnew.symm.trans hty') (by simp)
      exact ⟨hy, ty', (lookup_append_of_ne (a := some ty) hne).trans hty', htyped⟩
  moments := h.moments
  builtins c ty' hty' := by
    -- a declaration with the name of a built-in is that built-in
    by_cases hne : c.name = d.name
    · rw [Published, hne, List.lookup_cons_self] at hty'
      exact Option.some.inj hty' ▸ hbuiltin c (hall.eq_builtin entry hne.symm)
    · exact h.builtins c ty' ((lookup_append_of_ne (a := some ty) hne).symm.trans hty')
  backend := h.backend

end Informed

/-!
## Extensions

To extend a state is what everything in an analysis does, however it ends. It is
stated as a relation between two states rather than as an invariant of one, as
it has to hold from any state: when a declaration is examined on demand, the
state is the one that some other declaration has left in the middle of its own
examination.
-/

/-- **A state extends another**: what was known is known, what is being computed
is still being computed, and its type was not published by anybody else. If the
analysis was informed then it is. -/
structure Extends (ctx : Context β) (s t : State β) : Prop where
  types : ∀ x ty, Published s x ty → Published t x ty
  inProgress : ∀ x ∈ s.inProgress, x ∈ t.inProgress
  unpublished : ∀ x ∈ s.inProgress, s.types.lookup x = none → t.types.lookup x = none
  informed : ∀ b, ctx.HasBuiltins → Informed ctx b s → Informed ctx b t

namespace Extends

theorem refl (s : State β) : Extends ctx s s where
  types _ _ h := h
  inProgress _ h := h
  unpublished _ _ h := h
  informed _ _ h := h

/-- **Extensions can be put together.** What is being computed in the first
state is so in the second, and so is neither published nor computed by anybody
else in the third. -/
theorem trans (h : Extends ctx s t) (h' : Extends ctx t u) : Extends ctx s u where
  types x ty hx := h'.types x ty (h.types x ty hx)
  inProgress x hx := h'.inProgress x (h.inProgress x hx)
  unpublished x hx hnew := h'.unpublished x (h.inProgress x hx) (h.unpublished x hx hnew)
  informed b hall hs := h'.informed b hall (h.informed b hall hs)

/-- A state where the same is known, but for what is being computed. -/
theorem of_same (h : Extends ctx s t) (types : u.types = t.types) (values : u.values = t.values)
    (transcript : u.transcript = t.transcript) (backend : u.backend = t.backend)
    (moments : ∀ m ∈ u.moments, m = t.now ∨ m ∈ t.moments)
    (inProgress : ∀ x ∈ s.inProgress, x ∈ u.inProgress) : Extends ctx s u where
  types x ty hx := by
    rw [Published, types]
    exact h.types x ty hx
  inProgress := inProgress
  unpublished x hx hnew := by
    rw [types]
    exact h.unpublished x hx hnew
  informed b hall hs :=
    (h.informed b hall hs).of_same types values transcript backend moments

/-- The same is known, and nothing was noted. -/
theorem move (types : t.types = s.types) (values : t.values = s.values)
    (transcript : t.transcript = s.transcript) (backend : t.backend = s.backend)
    (moments : t.moments = s.moments) (inProgress : t.inProgress = s.inProgress) :
    Extends ctx s t :=
  (refl s).of_same types values transcript backend (fun _ hm => .inr (moments ▸ hm))
    fun _ hx => inProgress ▸ hx

/-- A declaration that was not being computed is not being computed again, and
the place is another. -/
theorem unmark (h : Extends ctx s t) (hfree : x ∉ s.inProgress) {scopes : Scopes}
    {inAscription : Bool} {active failed : List String} :
    Extends ctx s { t with
      scopes, inAscription, active, failed, inProgress := t.inProgress.erase x } := by
  refine h.of_same rfl rfl rfl rfl (fun _ hm => .inr hm) fun y hy => ?_
  have hne : y ≠ x := by
    rintro rfl
    exact hfree hy
  exact (List.mem_erase_of_ne hne).mpr (h.inProgress y hy)

/-- What is known is noted. -/
theorem note {resolutions : List Resolution} {scopes : Scopes} {foldings : List (Term × Value)} :
    Extends ctx s { s with scopes, resolutions, moments := s.now :: s.moments, foldings } :=
  (refl s).of_same rfl rfl rfl rfl (fun _ hm => List.mem_cons.mp hm) fun _ hx => hx

/-- A request is made, whatever comes of it. -/
theorem request (ctx : Context β) (s : State β) (kind : Request) (subject : Subject)
    (text : String) (accepted : Bool) :
    Extends ctx s { s with
      backend := (ctx.backend.respond kind text s.backend).2
      transcript := s.transcript ++ [⟨kind, text, subject, accepted⟩]
      moments := s.now :: s.moments } where
  types _ _ h := h
  inProgress _ h := h
  unpublished _ _ h := h
  informed _ _ hs := hs.request kind subject text accepted

/-- **A declaration publishes its type**, and maybe its value. It had no type
before, and in the state that is extended it was not even being computed. -/
theorem learn (h : Extends ctx s t) {d : Declaration} (entry : d ∈ ctx.declarations.entries)
    (hfree : d.name ∉ s.inProgress) (hnew : s.types.lookup d.name = none)
    (hnew' : t.types.lookup d.name = none) {ty : Ty} {v : Option Value}
    (hvalue : ∀ b, Informed ctx b t → ∀ w ∈ v, w.HasType ty)
    (hbuiltin : ∀ c, d = .builtin c → ty = c.ty) :
    Extends ctx s { t with
      types := (d.name, ty) :: t.types
      values := (v.map (d.name, ·)).toList ++ t.values } where
  types x ty' hx := by
    have hne : x ≠ d.name := by
      rintro rfl
      exact absurd (hnew.symm.trans hx) (by simp)
    exact (lookup_append_of_ne (a := some ty) hne).trans (h.types x ty' hx)
  inProgress := h.inProgress
  unpublished x hx hx' := by
    have hne : x ≠ d.name := by
      rintro rfl
      exact hfree hx
    exact (lookup_append_of_ne (a := some ty) hne).trans (h.unpublished x hx hx')
  informed b hall hs := by
    have ht := h.informed b hall hs
    exact ht.learn hall entry hnew' (hvalue b ht) hbuiltin

end Extends

/-! ## Blame -/

/-- **The backend is to blame** for a failure, if it is one of the backend at
all: it has refused the last request, or the last request was to evaluate
something and the reply is no type. -/
inductive Blames (backend : Backend β) (b : β) (transcript : List Exchange) : Fatal → Prop where
  | internal (e : Internal) : Blames backend b transcript (.internal e)
  | refused {before : List Exchange} {e : Exchange} {f : Backend.Fault}
    (last : transcript = before ++ [e]) (rejected : e.accepted = false)
    (answer : (backend.respond e.kind e.text (backend.after b before)).1 = some f) :
    Blames backend b transcript (.backend f)
  | undecoded {before : List Exchange} {e : Exchange} {reply : Data} {cause : DecodeError}
    (last : transcript = before ++ [e]) (kind : e.kind = .evaluate)
    (answer : (backend.evaluate e.text (backend.after b before)).1 = .ok reply)
    (decoded : Value.decode [] reply = .error cause) :
    Blames backend b transcript (.backend (.decode cause))
  | noType {before : List Exchange} {e : Exchange} {reply : Data} {v : Value}
    (last : transcript = before ++ [e]) (kind : e.kind = .evaluate)
    (answer : (backend.evaluate e.text (backend.after b before)).1 = .ok reply)
    (decoded : Value.decode [] reply = .ok v) (other : ∀ ty, v ≠ .type ty) :
    Blames backend b transcript
      (.backend (.protocol ("type annotation evaluated to " ++ v.listing)))

end Analysis

end Stagewise
