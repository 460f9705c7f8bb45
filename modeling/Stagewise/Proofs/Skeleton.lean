import Mathlib.Data.List.Basic
import Stagewise.Proofs.Term.Rules

/-!
# What names refer to in a program

To tell what the names in a program refer to, little of the program is needed:
where names are used, where variables and parameters are introduced, and where
scopes begin and end. This is the **skeleton** of the program. Variables and
parameters are numbered in the order they are written, and to resolve a name is
to give the number of what it refers to.

Two rules of visibility are in use, and they differ in one place. A variable is
visible from where its name is written, and so in its own initializer, or else
only in what follows the statement that introduces it. A name means the same
under both rules unless an initializer uses the name of the variable that it is
for (`Skeleton.resolve_eq_iff`).

Where a skeleton is bound by an environment, what it notes of a name is the
local of the number that the name resolves to (`Skeleton.Bound.noted`).
-/

namespace Stagewise

/-- **Where names stand in a program**, in the order they are written. `α` is
what is noted of a name that is used. -/
inductive Skeleton (α : Type) where
  | done
  /-- A name is used. -/
  | use (name : String) (note : α) (rest : Skeleton α)
  /-- A parameter, which is visible in what follows. -/
  | param (name : String) (ty : Ty) (rest : Skeleton α)
  /-- Something in a scope of its own. -/
  | scope (inner rest : Skeleton α)
  /-- A variable and its initializer. -/
  | define (name : String) (ty : Ty) (init rest : Skeleton α)

/-- **From where on a variable is visible.** -/
inductive Visibility where
  /-- From where its name is written. -/
  | declarator
  /-- From the statement after the one that introduces it. -/
  | statement

/-- **What the names around a program refer to**, by number; the others are
top-level names. -/
abbrev Frame := String → Option Nat

/-- The frame with one more variable, which hides what its name referred to. -/
def Frame.bind (ρ : Frame) (x : String) (n : Nat) : Frame := fun y => if y = x then some n else ρ y

namespace Frame

/-- A frame is **below** a number if all its variables have smaller ones. -/
def Below (ρ : Frame) (n : Nat) : Prop := ∀ x k, ρ x = some k → k < n

variable {ρ σ : Frame} {n m : Nat}

/-- A number that is larger is still above all of them. -/
theorem Below.mono (h : ρ.Below n) (hnm : n ≤ m) : ρ.Below m := fun x k hx =>
  Nat.lt_of_lt_of_le (h x k hx) hnm

/-- A new variable has the next number. -/
theorem Below.bind (h : ρ.Below n) (x : String) : (ρ.bind x n).Below (n + 1) := by
  intro y k hy
  unfold Frame.bind at hy
  split at hy
  · exact Option.some.inj hy ▸ Nat.lt_succ_self n
  · exact Nat.lt_succ_of_lt (h y k hy)

/-- A new variable makes a difference where its name is looked up, and nowhere
else. -/
theorem forall_bind_iff (h : σ.Below n) {x : String} {ys : List String} :
    (∀ y ∈ ys, ρ.bind x n y = σ y) ↔ x ∉ ys ∧ ∀ y ∈ ys, ρ y = σ y := by
  constructor
  · intro hall
    have hx : x ∉ ys := fun hx =>
      absurd (h x n ((hall x hx).symm.trans (if_pos rfl))) (Nat.lt_irrefl n)
    refine ⟨hx, fun y hy => ?_⟩
    have hne : y ≠ x := fun heq => hx (heq ▸ hy)
    exact (if_neg hne).symm.trans (hall y hy)
  · rintro ⟨hx, hall⟩ y hy
    have hne : y ≠ x := fun heq => hx (heq ▸ hy)
    exact (if_neg hne).trans (hall y hy)

/-- Two frames with the same new variable agree on its name in any case. -/
theorem forall_bind_bind_iff {x : String} {ys : List String} :
    (∀ y ∈ ys, ρ.bind x n y = σ.bind x n y) ↔ ∀ y ∈ ys.filter (· ≠ x), ρ y = σ y := by
  refine ⟨fun hall y hy => ?_, fun hall y hy => ?_⟩
  · obtain ⟨hy, hne⟩ := List.mem_filter.mp hy
    have hne : y ≠ x := of_decide_eq_true hne
    simpa [Frame.bind, hne] using hall y hy
  · by_cases hne : y = x
    · simp [Frame.bind, hne]
    · simpa [Frame.bind, hne] using hall y (List.mem_filter.mpr ⟨hy, decide_eq_true hne⟩)

end Frame

/-- The frame of an initializer. -/
def Visibility.initializer (v : Visibility) (ρ : Frame) (x : String) (n : Nat) : Frame :=
  match v with
  | .declarator => ρ.bind x n
  | .statement => ρ

/-- **A name that is used**, with the number of what it refers to, or none for a
top-level name. -/
structure Occurrence (α : Type) where
  name : String
  note : α
  local? : Option Nat
  deriving DecidableEq

/-- An occurrence with another note. -/
def Occurrence.map {α γ : Type} (f : α → γ) (o : Occurrence α) : Occurrence γ :=
  ⟨o.name, f o.note, o.local?⟩

namespace Skeleton

variable {α γ : Type} {ρ σ : Frame} {n : Nat} {x : String}

/-- The variables and parameters, in the order they are written. -/
def declarators : Skeleton α → List (String × Ty)
  | done => []
  | use _ _ rest => rest.declarators
  | param x ty rest => (x, ty) :: rest.declarators
  | scope inner rest => inner.declarators ++ rest.declarators
  | define x ty init rest => (x, ty) :: (init.declarators ++ rest.declarators)

/-- The names that are used, in order. -/
def uses : Skeleton α → List (String × α)
  | done => []
  | use x a rest => (x, a) :: rest.uses
  | param _ _ rest => rest.uses
  | scope inner rest => inner.uses ++ rest.uses
  | define _ _ init rest => init.uses ++ rest.uses

/-- **What names refer to**, by a rule of visibility and where `n` variables and
parameters were introduced before. -/
def resolve (v : Visibility) (ρ : Frame) (n : Nat) : Skeleton α → List (Occurrence α)
  | done => []
  | use x a rest => ⟨x, a, ρ x⟩ :: rest.resolve v ρ n
  | param x _ rest => rest.resolve v (ρ.bind x n) (n + 1)
  | scope inner rest => inner.resolve v ρ n ++ rest.resolve v ρ (n + inner.declarators.length)
  | define x _ init rest =>
    init.resolve v (v.initializer ρ x n) (n + 1)
      ++ rest.resolve v (ρ.bind x n) (n + 1 + init.declarators.length)

/-- The names that are used and not introduced before. -/
def free : Skeleton α → List String
  | done => []
  | use x _ rest => x :: rest.free
  | param x _ rest => rest.free.filter (· ≠ x)
  | scope inner rest => inner.free ++ rest.free
  | define x _ init rest => init.free ++ rest.free.filter (· ≠ x)

/-- **No initializer uses the name of the variable that it is for**, unless it
introduces the name itself. -/
def Steady : Skeleton α → Prop
  | done => True
  | use _ _ rest | param _ _ rest => rest.Steady
  | scope inner rest => inner.Steady ∧ rest.Steady
  | define x _ init rest => x ∉ init.free ∧ init.Steady ∧ rest.Steady

/-- The same skeleton with other notes. -/
def map (f : α → γ) : Skeleton α → Skeleton γ
  | done => done
  | use x a rest => use x (f a) (rest.map f)
  | param x ty rest => param x ty (rest.map f)
  | scope inner rest => scope (inner.map f) (rest.map f)
  | define x ty init rest => define x ty (init.map f) (rest.map f)

/-- Parameters in front of a skeleton. -/
def params (ps : List (String × Ty)) (rest : Skeleton α) : Skeleton α :=
  ps.foldr (fun p rest => param p.1 p.2 rest) rest

/-!
## Other notes

What is noted of names has no part in what they refer to. So a skeleton may be
compared with another one of which less is noted.
-/

/-- The same variables are introduced. -/
@[simp]
theorem declarators_map (f : α → γ) (o : Skeleton α) : (o.map f).declarators = o.declarators := by
  induction o with
  | done => rfl
  | use x a rest ih => exact ih
  | param x ty rest ih => simp [map, declarators, ih]
  | scope inner rest ihi ihr => simp [map, declarators, ihi, ihr]
  | define x ty init rest ihi ihr => simp [map, declarators, ihi, ihr]

/-- The same names are used. -/
@[simp]
theorem uses_map (f : α → γ) (o : Skeleton α) :
    (o.map f).uses = o.uses.map fun u => (u.1, f u.2) := by
  induction o with
  | done => rfl
  | use x a rest ih => simp [map, uses, ih]
  | param x ty rest ih => exact ih
  | scope inner rest ihi ihr => simp [map, uses, ihi, ihr]
  | define x ty init rest ihi ihr => simp [map, uses, ihi, ihr]

/-- What names refer to does not depend on what is noted of them. -/
@[simp]
theorem resolve_map (f : α → γ) (o : Skeleton α) (v : Visibility) (ρ : Frame) (n : Nat) :
    (o.map f).resolve v ρ n = (o.resolve v ρ n).map (Occurrence.map f) := by
  induction o generalizing ρ n with
  | done => rfl
  | use x a rest ih => simp [map, resolve, ih, Occurrence.map]
  | param x ty rest ih => exact ih _ _
  | scope inner rest ihi ihr => simp [map, resolve, ihi, ihr]
  | define x ty init rest ihi ihr => simp [map, resolve, ihi, ihr]

/-- The same names are free. -/
@[simp]
theorem free_map (f : α → γ) (o : Skeleton α) : (o.map f).free = o.free := by
  induction o with
  | done => rfl
  | use x a rest ih => simp [map, free, ih]
  | param x ty rest ih => simp [map, free, ih]
  | scope inner rest ihi ihr => simp [map, free, ihi, ihr]
  | define x ty init rest ihi ihr => simp [map, free, ihi, ihr]

/-- The same initializers use the names of their variables. -/
@[simp]
theorem steady_map (f : α → γ) (o : Skeleton α) : (o.map f).Steady ↔ o.Steady := by
  induction o with
  | done => rfl
  | use x a rest ih => exact ih
  | param x ty rest ih => exact ih
  | scope inner rest ihi ihr => simp [map, Steady, ihi, ihr]
  | define x ty init rest ihi ihr => simp [map, Steady, ihi, ihr]

/-- Parameters have no notes. -/
@[simp]
theorem map_params (f : α → γ) (ps : List (String × Ty)) (rest : Skeleton α) :
    (params ps rest).map f = params ps (rest.map f) := by
  induction ps with
  | nil => rfl
  | cons p ps ih => simpa [params, map] using ih

/-- Parameters use no names. -/
@[simp]
theorem uses_params (ps : List (String × Ty)) (rest : Skeleton α) :
    (params ps rest).uses = rest.uses := by
  induction ps with
  | nil => rfl
  | cons p ps ih => exact ih

/-!
## Two rules of visibility

The rules differ in the frame in which an initializer is resolved. Under one it
has the new variable in it already, under the other not yet. Everything after
the initializer is resolved in the same frame under both.
-/

/-- Every use is resolved, by whatever rule. -/
theorem length_resolve (v : Visibility) (ρ : Frame) (n : Nat) (o : Skeleton α) :
    (o.resolve v ρ n).length = o.uses.length := by
  induction o generalizing ρ n with
  | done => rfl
  | use x a rest ih => simp [resolve, uses, ih]
  | param x ty rest ih => exact ih _ _
  | scope inner rest ihi ihr => simp [resolve, uses, ihi, ihr]
  | define x ty init rest ihi ihr => simp [resolve, uses, ihi, ihr]

/-- What is resolved first and what is resolved later can be told apart. -/
theorem append_resolve_eq_iff {v w : Visibility} {ρ ρ' σ σ' : Frame} {n m n' m' : Nat}
    {o o' : Skeleton α} :
    o.resolve v ρ n ++ o'.resolve v ρ' m = o.resolve w σ n' ++ o'.resolve w σ' m' ↔
      o.resolve v ρ n = o.resolve w σ n' ∧ o'.resolve v ρ' m = o'.resolve w σ' m' := by
  constructor
  · intro h
    exact List.append_inj h (by rw [length_resolve, length_resolve])
  · rintro ⟨h, h'⟩
    rw [h, h']

/-- **The two rules agree** exactly if no initializer uses the name of its
variable. More generally, let the one rule be applied in one frame and the other
in another.

By recursion on the skeleton, with two frames that may differ in general. At an
initializer they come to differ in the new variable at least, and its number is
one that the other frame has for no name, since all its numbers are smaller. So
the rules part exactly if the name is looked up there. -/
theorem resolve_declarator_eq_iff (o : Skeleton α) (hσ : σ.Below n) :
    o.resolve .declarator ρ n = o.resolve .statement σ n ↔
      o.Steady ∧ ∀ y ∈ o.free, ρ y = σ y := by
  induction o generalizing ρ σ n with
  | done => simp [resolve, Steady, free]
  | use x a rest ih =>
    simp only [resolve, Steady, free, List.cons.injEq, Occurrence.mk.injEq, true_and,
      List.forall_mem_cons, ih hσ]
    tauto
  | param x ty rest ih =>
    simp only [resolve, Steady, free, ih (hσ.bind x), Frame.forall_bind_bind_iff]
  | scope inner rest ihi ihr =>
    simp only [resolve, Steady, free, append_resolve_eq_iff, ihi hσ,
      ihr (hσ.mono (Nat.le_add_right _ _)), List.forall_mem_append]
    tauto
  | define x ty init rest ihi ihr =>
    -- in the frame of the initializer the variable has a number that no other name has
    simp only [resolve, Steady, free, append_resolve_eq_iff, Visibility.initializer,
      ihi (hσ.mono (Nat.le_add_right _ _)),
      ihr ((hσ.bind x).mono (Nat.le_add_right _ _)), Frame.forall_bind_iff hσ,
      Frame.forall_bind_bind_iff, List.forall_mem_append]
    tauto

/-- **The rules agree on a program** exactly if no initializer in it uses the
name of its variable. -/
theorem resolve_eq_iff (o : Skeleton α) (hρ : ρ.Below n) :
    o.resolve .declarator ρ n = o.resolve .statement ρ n ↔ o.Steady := by
  rw [resolve_declarator_eq_iff o hρ]
  exact and_iff_left fun y _ => rfl

/-!
## Environments

A name in an environment refers to a local or to a declaration, and in a frame
it refers to a number or to nothing. The two are tied by the list of the locals
in the order they are introduced, where a number is a position.
-/

/-- **A reference denotes a binding**: the local of that number, or the
declaration of that name. -/
def Denotes (locals : List Local) (x : String) : Option Nat → Binding → Prop
  | some k, .lexical l => locals[k]? = some l
  | none, .global y => y = x
  | _, _ => False

/-- More locals at the end leave the positions of those before them. -/
theorem Denotes.append {locals : List Local} {r : Option Nat} {c : Binding}
    (h : Denotes locals x r c) (more : List Local) : Denotes (locals ++ more) x r c := by
  rcases r with _ | k <;> rcases c with y | l
  case some.lexical =>
    have hk : locals[k]? = some l := h
    show (locals ++ more)[k]? = some l
    rw [List.getElem?_append_left (List.getElem?_eq_some_iff.mp hk).1, hk]
  all_goals exact h

/-- **What is noted of a name is what it refers to.** A name of which nothing is
noted refers to a local. -/
def Noted (locals : List Local) : Occurrence (Option Binding) → Prop
  | ⟨x, some c, r⟩ => Denotes locals x r c
  | ⟨x, none, r⟩ => ∃ l, Denotes locals x r (.lexical l)

/-- The same for what is noted. -/
theorem Noted.append {locals : List Local} {o : Occurrence (Option Binding)}
    (h : Noted locals o) (more : List Local) : Noted (locals ++ more) o := by
  rcases o with ⟨x, _ | c, r⟩
  · obtain ⟨l, hl⟩ := h
    exact ⟨l, hl.append more⟩
  · exact Denotes.append h more

/-- **A skeleton is bound by an environment**: each name refers to what is noted
of it, and where nothing is noted, to a local. A variable is in scope after its
initializer. -/
def Bound (E : Env) : Skeleton (Option Binding) → Prop
  | done => True
  | use x none rest => (∃ l, E x = some (.lexical l)) ∧ rest.Bound E
  | use x (some c) rest => E x = some c ∧ rest.Bound E
  | param x ty rest => ∃ l : Local, l.name.text = x ∧ l.ty = ty ∧ rest.Bound (E.bind l)
  | scope inner rest => inner.Bound E ∧ rest.Bound E
  | define x ty init rest =>
    init.Bound E ∧ ∃ l : Local, l.name.text = x ∧ l.ty = ty ∧ rest.Bound (E.bind l)

/-- A new local hides names but is no declaration. -/
theorem eq_of_bind_eq_global {E : Env} {l : Local} {y : String}
    (h : E.bind l x = some (.global y)) : E x = some (.global y) := by
  unfold Env.bind at h
  split at h
  · cases h
  · exact h

/-- **A name that refers to a declaration** does so in the environment all
around. -/
theorem Bound.eq_of_global {o : Skeleton (Option Binding)} {E : Env} {y : String} (h : o.Bound E)
    (hx : (x, some (.global y)) ∈ o.uses) : E x = some (.global y) := by
  induction o generalizing E with
  | done => cases hx
  | use z note rest ih =>
    obtain heq | hlater := List.mem_cons.mp hx
    · cases heq
      exact h.1
    · cases note with
      | none => exact ih h.2 hlater
      | some c => exact ih h.2 hlater
  | param z ty rest ih =>
    obtain ⟨l, -, -, hrest⟩ := h
    exact eq_of_bind_eq_global (ih hrest hx)
  | scope inner rest ihi ihr =>
    obtain hx | hx := List.mem_append.mp hx
    · exact ihi h.1 hx
    · exact ihr h.2 hx
  | define z ty init rest ihi ihr =>
    obtain ⟨hinit, l, -, -, hrest⟩ := h
    obtain hx | hx := List.mem_append.mp hx
    · exact ihi hinit hx
    · exact eq_of_bind_eq_global (ihr hrest hx)

end Skeleton

/-- **A frame renders an environment**: each name refers to the same in both. -/
def Frame.Renders (ρ : Frame) (E : Env) (locals : List Local) : Prop :=
  ∀ x c, E x = some c → Skeleton.Denotes locals x (ρ x) c

namespace Frame.Renders

variable {ρ : Frame} {E : Env} {locals : List Local}

/-- Locals that come later are not referred to yet. -/
theorem append (h : ρ.Renders E locals) (more : List Local) : ρ.Renders E (locals ++ more) :=
  fun x c hx => (h x c hx).append more

/-- One more local is introduced. -/
theorem bind (h : ρ.Renders E locals) (l : Local) :
    (ρ.bind l.name.text locals.length).Renders (E.bind l) (locals ++ [l]) := by
  intro x c hx
  unfold Frame.bind
  unfold Env.bind at hx
  split at hx
  · rename_i heq
    obtain rfl := Option.some.inj hx
    rw [if_pos heq]
    exact List.getElem?_concat_length
  · rename_i hne
    rw [if_neg hne]
    exact (h x c hx).append [l]

end Frame.Renders

/-- What is written of a local where it is introduced. -/
def Local.declarator (l : Local) : String × Ty := (l.name.text, l.ty)

namespace Skeleton

/-- **What is noted of the names in a bound skeleton is what they refer to**, if
variables are visible after their statements: there are locals for all that the
skeleton introduces, such that the note of each name is the local of the number
that the name resolves to.

By recursion on the skeleton, along with the frame and the list of locals so
far. A local is added to both where its name is introduced, after its
initializer was gone through. That is where the environment has it too, so the
frame renders the environment throughout. -/
theorem Bound.noted {o : Skeleton (Option Binding)} {E : Env} {ρ : Frame} {locals : List Local}
    (h : o.Bound E) (hρ : ρ.Renders E locals) :
    ∃ more : List Local, more.map Local.declarator = o.declarators ∧
      ∀ u ∈ o.resolve .statement ρ locals.length, Noted (locals ++ more) u := by
  induction o generalizing E ρ locals with
  | done => exact ⟨[], rfl, fun u hu => absurd hu List.not_mem_nil⟩
  | use x note rest ih =>
    have hrest : rest.Bound E := by
      cases note with
      | none => exact h.2
      | some c => exact h.2
    obtain ⟨more, hmore, hnoted⟩ := ih hrest hρ
    refine ⟨more, hmore, List.forall_mem_cons.mpr ⟨Noted.append ?_ more, hnoted⟩⟩
    cases note with
    | none =>
      obtain ⟨⟨l, hl⟩, -⟩ := h
      exact ⟨l, hρ x _ hl⟩
    | some c => exact hρ x c h.1
  | param x ty rest ih =>
    obtain ⟨l, rfl, rfl, hrest⟩ := h
    obtain ⟨more, hmore, hnoted⟩ := ih hrest (hρ.bind l)
    refine ⟨l :: more, by simp [declarators, Local.declarator, hmore], ?_⟩
    simpa [resolve] using hnoted
  | scope inner rest ihi ihr =>
    obtain ⟨first, hfirst, hinner⟩ := ihi h.1 hρ
    obtain ⟨second, hsecond, hrest⟩ := ihr h.2 (hρ.append first)
    have hlength : first.length = inner.declarators.length := by simp [← hfirst]
    refine ⟨first ++ second, by simp [declarators, hfirst, hsecond], ?_⟩
    simp only [resolve, List.forall_mem_append, ← List.append_assoc]
    refine ⟨fun u hu => (hinner u hu).append second, ?_⟩
    simpa [hlength] using hrest
  | define x ty init rest ihi ihr =>
    obtain ⟨hinit, l, rfl, rfl, hrest⟩ := h
    -- the variable has its number before its initializer is read, and is not in scope there
    obtain ⟨first, hfirst, hinit⟩ := ihi hinit (hρ.append [l])
    obtain ⟨second, hsecond, hrest⟩ := ihr hrest ((hρ.bind l).append first)
    have hlength : first.length = init.declarators.length := by simp [← hfirst]
    refine ⟨l :: (first ++ second),
      by simp [declarators, Local.declarator, hfirst, hsecond], ?_⟩
    have happend : locals ++ l :: (first ++ second) = locals ++ [l] ++ first ++ second := by simp
    simp only [resolve, List.forall_mem_append, Visibility.initializer, happend]
    refine ⟨fun u hu => ?_, ?_⟩
    · exact (hinit u (by simpa using hu)).append second
    · simpa [hlength, Nat.add_assoc, Nat.add_comm 1] using hrest

end Skeleton

end Stagewise
