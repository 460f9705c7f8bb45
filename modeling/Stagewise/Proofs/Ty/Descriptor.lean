import Stagewise.Analysis.Declarations
import Stagewise.Proofs.Value.RoundTrip

/-!
# Telling types from their descriptors

A descriptor is text, and the parts of a type are described in it one after the
other with nothing around them. Still it can be read in one way only. Its
beginning tells the form of the type (`Form.opening`), the parts are read in
turn, and where a descriptor ends is told by the descriptor itself, whatever
comes after it (`eq_of_descriptor_append`).

The name of a struct is the exception. It is written between quotes as it is, so
it ends where the text that closes it is met first. If the name has that text in
it (`Forges`), then the rest of the name is read as something else, another
element of a tuple for instance. Two types that the analysis tells apart may
then have the same descriptor, and the request for an expansion, which says by
the descriptor alone which type is expected, is the same for both
(`forged_descriptor`). Names of this kind are the only obstacle
(`descriptor_eq_iff`).
-/

namespace Stagewise.Ty

open Analysis (expansionText)
open Source (Invocation)

variable {a b : Ty} {r r' : String}

/-!
## Names

The text that closes a name cannot begin in the name and end in what follows it,
since it does not overlap with itself. So a name that does not have it inside
ends where it is met first.
-/

/-- What closes the name of a struct. -/
def nameEnd : String := "\" \x7d)"

/-- **A name closes itself**: it has the text in it that is to close it. -/
def Forges (name : String) : Prop := nameEnd.toList <:+: name.toList

instance (name : String) : Decidable (Forges name) :=
  inferInstanceAs (Decidable (nameEnd.toList <:+: name.toList))

mutual

/-- The names of the structs in a type. -/
def structNames : Ty → List String
  | .type | .int | .float | .bool | .string | .nil => []
  | .tuple elements => structNamesAll elements
  | .list element => element.structNames
  | .fn argument result => argument.structNames ++ result.structNames
  | .struct name => [name]

/-- The names of the structs in several types. -/
def structNamesAll : List Ty → List String
  | [] => []
  | t :: ts => t.structNames ++ structNamesAll ts

end

/-- **A type is honest** if no name in it closes itself. -/
def Honest (t : Ty) : Prop := ∀ name ∈ t.structNames, ¬Forges name

instance (t : Ty) : Decidable t.Honest :=
  inferInstanceAs (Decidable (∀ name ∈ t.structNames, ¬Forges name))

@[simp]
theorem honest_list : (list a).Honest ↔ a.Honest := Iff.rfl

@[simp]
theorem honest_fn : (fn a b).Honest ↔ a.Honest ∧ b.Honest := by
  simp [Honest, structNames, or_imp, forall_and]

@[simp]
theorem honest_struct {name : String} : (struct name).Honest ↔ ¬Forges name := by
  simp [Honest, structNames]

theorem honest_tuple_cons {ts : List Ty} :
    (tuple (a :: ts)).Honest ↔ a.Honest ∧ (tuple ts).Honest := by
  simp [Honest, structNames, structNamesAll, or_imp, forall_and]

/-- What closes a name does not overlap with itself. -/
theorem nameEnd_overlap {w r r' : List Char}
    (h : nameEnd.toList ++ r = w ++ (nameEnd.toList ++ r')) : w = [] ∨ nameEnd.toList <+: w := by
  have hend : nameEnd.toList = ['"', ' ', '\x7d', ')'] := by decide +kernel
  rw [hend] at h ⊢
  rcases w with _ | ⟨c, _ | ⟨d, _ | ⟨e, _ | ⟨f, w⟩⟩⟩⟩
  · exact .inl rfl
  · simp at h
  · simp at h
  · simp at h
  · simp only [List.cons_append, List.nil_append, List.cons.injEq] at h
    obtain ⟨rfl, rfl, rfl, rfl, -⟩ := h
    exact .inr ⟨w, rfl⟩

/-- **A name ends where it is closed first.** -/
theorem eq_of_name_append {m n : String} (hm : ¬Forges m) (hn : ¬Forges n)
    (h : m ++ (nameEnd ++ r) = n ++ (nameEnd ++ r')) : m = n ∧ r = r' := by
  rw [← String.toList_inj, String.toList_append, String.toList_append, String.toList_append,
    String.toList_append] at h
  rw [← String.toList_inj, ← String.toList_inj]
  -- the longer name would go on with the text that closes the shorter one
  obtain ⟨w, hw, hr⟩ | ⟨w, hw, hr⟩ := List.append_eq_append_iff.mp h
  · obtain rfl | hend := nameEnd_overlap hr
    · exact ⟨(hw.trans (List.append_nil _)).symm, List.append_cancel_left hr⟩
    · exact absurd (hend.isInfix.trans (hw ▸ (List.suffix_append _ w).isInfix)) hn
  · obtain rfl | hend := nameEnd_overlap hr
    · exact ⟨hw.trans (List.append_nil _), (List.append_cancel_left hr).symm⟩
    · exact absurd (hend.isInfix.trans (hw ▸ (List.suffix_append _ w).isInfix)) hm

/-!
## Forms

A descriptor begins with a text that depends on the form of the type alone, and
these texts go apart: of no two is one the beginning of the other. What the
forms have after that is parts, and signs that are always the same.
-/

/-- Two texts go apart: neither is the beginning of the other. -/
def Apart (s t : String) : Prop := ¬s.toList <+: t.toList ∧ ¬t.toList <+: s.toList

instance (s t : String) : Decidable (Apart s t) :=
  inferInstanceAs (Decidable (¬s.toList <+: t.toList ∧ ¬t.toList <+: s.toList))

/-- Whatever comes after texts that go apart, they are not the same. -/
theorem Apart.append_ne {s t : String} (h : Apart s t) : s ++ r ≠ t ++ r' := by
  intro heq
  rw [← String.toList_inj, String.toList_append, String.toList_append] at heq
  obtain hle | hle := List.prefix_or_prefix_of_prefix (List.prefix_append s.toList r.toList)
    (heq ▸ List.prefix_append t.toList r'.toList)
  · exact h.1 hle
  · exact h.2 hle

/-- **The form of a type**: how it is made. -/
inductive Form where
  | type | int | float | bool | string | nil | tuple | list | fn | struct
  deriving DecidableEq

/-- All forms. -/
def Form.all : List Form := [type, int, float, bool, string, nil, tuple, list, fn, struct]

theorem Form.mem_all (f : Form) : f ∈ all := by cases f <;> decide

/-- The form that a type has. -/
def form : Ty → Form
  | .type => .type
  | .int => .int
  | .float => .float
  | .bool => .bool
  | .string => .string
  | .nil => .nil
  | .tuple _ => .tuple
  | .list _ => .list
  | .fn _ _ => .fn
  | .struct _ => .struct

/-- How the descriptors of types of a form begin. -/
def Form.opening : Form → String
  | .type => "ty::TypeType\x7b\x7d"
  | .int => "ty::IntType\x7b\x7d"
  | .float => "ty::FloatType\x7b\x7d"
  | .bool => "ty::BoolType\x7b\x7d"
  | .string => "ty::StringType\x7b\x7d"
  | .nil => "ty::NilType\x7b\x7d"
  | .tuple => "box(ty::TupleType\x7b .elements = \x7b "
  | .list => "box(ty::ListType\x7b .element = "
  | .fn => "box(ty::FnType\x7b .argument = "
  | .struct => "box(ty::StructType\x7b .name = \""

/-- **The beginning tells the form.** -/
theorem Form.eq_or_apart (f g : Form) : f = g ∨ Apart f.opening g.opening := by
  have hall : ∀ f ∈ all, ∀ g ∈ all, f = g ∨ Apart f.opening g.opening := by decide +kernel
  exact hall f f.mem_all g g.mem_all

theorem Form.eq_of_opening_append {f g : Form} (h : f.opening ++ r = g.opening ++ r') :
    f = g ∧ r = r' := by
  obtain rfl | hapart := f.eq_or_apart g
  · exact ⟨rfl, (String.append_right_inj _).mp h⟩
  · exact absurd h hapart.append_ne

/-- What closes a tuple. -/
def tupleEnd : String := " \x7d \x7d)"

/-- What follows an element of a tuple. -/
def following : List Ty → String
  | [] => tupleEnd
  | t :: ts => ", " ++ (t.descriptor ++ following ts)

/-- What follows the beginning of a descriptor. -/
def remainder : Ty → String
  | .type | .int | .float | .bool | .string | .nil => ""
  | .tuple [] => tupleEnd
  | .tuple (t :: ts) => t.descriptor ++ following ts
  | .list element => element.descriptor ++ " \x7d)"
  | .fn argument result =>
    argument.descriptor ++ (", .returnType = " ++ (result.descriptor ++ " \x7d)"))
  | .struct name => name ++ nameEnd

theorem intercalate_descriptors (ts : List Ty) :
    String.intercalate ", " (descriptors ts) ++ tupleEnd = (tuple ts).remainder := by
  cases ts with
  | nil => rw [descriptors, String.intercalate_nil, String.empty_append, remainder]
  | cons t ts =>
    rw [remainder]
    induction ts generalizing t with
    | nil => rw [descriptors, descriptors, String.intercalate_singleton, following]
    | cons u ts ih =>
      rw [following, ← ih, descriptors, descriptors, String.intercalate_cons_cons,
        String.append_assoc, String.append_assoc]

/-- **A descriptor is the beginning of its form and then the parts.** -/
theorem descriptor_eq (t : Ty) : t.descriptor = t.form.opening ++ t.remainder := by
  cases t with
  | type | int | float | bool | string | nil => exact String.append_empty.symm
  | tuple elements =>
    calc (tuple elements).descriptor
      _ = Form.tuple.opening ++ (String.intercalate ", " (descriptors elements) ++ tupleEnd) :=
        String.append_assoc ..
      _ = Form.tuple.opening ++ (tuple elements).remainder := by rw [intercalate_descriptors]
  | list element => exact String.append_assoc ..
  | fn argument result =>
    calc (fn argument result).descriptor
      _ = Form.fn.opening ++ argument.descriptor ++ ", .returnType = " ++ result.descriptor
          ++ " \x7d)" := rfl
      _ = Form.fn.opening ++ (fn argument result).remainder := by
        simp only [remainder, String.append_assoc]
  | struct name => exact String.append_assoc ..

/-- No descriptor begins as a tuple ends. -/
theorem tupleEnd_append_ne : tupleEnd ++ r ≠ a.descriptor ++ r' := by
  rw [descriptor_eq, String.append_assoc]
  have hapart : ∀ f ∈ Form.all, Apart tupleEnd f.opening := by decide +kernel
  exact (hapart a.form a.form.mem_all).append_ne

/-!
## Reading a descriptor

By recursion on the first of two types. Their forms are the same as the
beginnings are, and then the parts are read one after the other. Each of them
ends where it does whatever follows, by recursion, so that what follows the one
and what follows the other are the same again.
-/

mutual

/-- **Where a descriptor ends, and of which type it is, is told by the
descriptor**, whatever comes after it. -/
theorem eq_of_descriptor_append (a b : Ty) (ha : a.Honest) (hb : b.Honest) {r r' : String}
    (h : a.descriptor ++ r = b.descriptor ++ r') : a = b ∧ r = r' := by
  rw [descriptor_eq, descriptor_eq, String.append_assoc, String.append_assoc] at h
  obtain ⟨hform, hrest⟩ := Form.eq_of_opening_append h
  cases a with
  | type | int | float | bool | string | nil =>
    cases b <;> cases hform
    exact ⟨rfl, (String.append_right_inj _).mp hrest⟩
  | tuple as =>
    cases b with
    | tuple bs => exact eq_of_elements_append as bs ha hb hrest
    | _ => cases hform
  | list a =>
    cases b with
    | list b =>
      rw [remainder, remainder, String.append_assoc, String.append_assoc] at hrest
      obtain ⟨rfl, hend⟩ := eq_of_descriptor_append a b ha hb hrest
      exact ⟨rfl, (String.append_right_inj _).mp hend⟩
    | _ => cases hform
  | fn a result =>
    cases b with
    | fn b result' =>
      rw [honest_fn] at ha hb
      simp only [remainder, String.append_assoc] at hrest
      obtain ⟨rfl, hresult⟩ := eq_of_descriptor_append a b ha.1 hb.1 hrest
      obtain ⟨rfl, hend⟩ := eq_of_descriptor_append result result' ha.2 hb.2
        ((String.append_right_inj _).mp hresult)
      exact ⟨rfl, (String.append_right_inj _).mp hend⟩
    | _ => cases hform
  | struct name =>
    cases b with
    | struct name' =>
      rw [honest_struct] at ha hb
      rw [remainder, remainder, String.append_assoc, String.append_assoc] at hrest
      obtain ⟨rfl, hend⟩ := eq_of_name_append ha hb hrest
      exact ⟨rfl, hend⟩
    | _ => cases hform

/-- The elements of a tuple are told in the same way. -/
theorem eq_of_elements_append (as bs : List Ty) (ha : (tuple as).Honest) (hb : (tuple bs).Honest)
    {r r' : String} (h : (tuple as).remainder ++ r = (tuple bs).remainder ++ r') :
    tuple as = tuple bs ∧ r = r' := by
  cases as with
  | nil =>
    cases bs with
    | nil => exact ⟨rfl, (String.append_right_inj _).mp h⟩
    | cons b bs =>
      rw [remainder, remainder, String.append_assoc] at h
      exact absurd h tupleEnd_append_ne
  | cons a as =>
    rw [honest_tuple_cons] at ha
    cases bs with
    | nil =>
      rw [remainder, remainder, String.append_assoc] at h
      exact absurd h.symm tupleEnd_append_ne
    | cons b bs =>
      rw [honest_tuple_cons] at hb
      rw [remainder, remainder, String.append_assoc, String.append_assoc] at h
      obtain ⟨rfl, hrest⟩ := eq_of_descriptor_append a b ha.1 hb.1 h
      obtain ⟨rfl, hend⟩ := eq_of_following_append as bs ha.2 hb.2 hrest
      exact ⟨rfl, hend⟩

/-- The elements that are left are told in the same way. -/
theorem eq_of_following_append (as bs : List Ty) (ha : (tuple as).Honest) (hb : (tuple bs).Honest)
    {r r' : String} (h : following as ++ r = following bs ++ r') : as = bs ∧ r = r' := by
  have hapart : Apart tupleEnd ", " := by decide +kernel
  cases as with
  | nil =>
    cases bs with
    | nil => exact ⟨rfl, (String.append_right_inj _).mp h⟩
    | cons b bs =>
      rw [following, following, String.append_assoc] at h
      exact absurd h hapart.append_ne
  | cons a as =>
    cases bs with
    | nil =>
      rw [following, following, String.append_assoc] at h
      exact absurd h.symm hapart.append_ne
    | cons b bs =>
      rw [honest_tuple_cons] at ha hb
      simp only [following, String.append_assoc] at h
      obtain ⟨rfl, hrest⟩ := eq_of_descriptor_append a b ha.1 hb.1
        ((String.append_right_inj _).mp h)
      obtain ⟨rfl, hend⟩ := eq_of_following_append as bs ha.2 hb.2 hrest
      exact ⟨rfl, hend⟩

end

/-- The request for an expansion is the same for two types if their descriptors
are. -/
theorem expansionText_eq_iff {m : Invocation} :
    expansionText m a = expansionText m b ↔ a.descriptor = b.descriptor := by
  have htext (t : Ty) : expansionText m t = m.expander.text ++ "("
      ++ Target.commas ["std::string(" ++ Data.quote m.text ++ ")", t.descriptor] ++ ")" := rfl
  simp only [htext, Target.commas, String.intercalate_cons_cons, String.intercalate_singleton,
    String.append_left_inj, String.append_right_inj]

/-- **Honest types are told from their descriptors**, and so from the requests
for expansions in which they are expected.

The descriptors are read with nothing after them. The text of a request has the
descriptor in it between texts that do not depend on the type. -/
theorem descriptor_eq_iff (a b : Ty) (ha : a.Honest) (hb : b.Honest) :
    (a.descriptor = b.descriptor ↔ a = b)
      ∧ ∀ m : Invocation, expansionText m a = expansionText m b ↔ a = b := by
  have hinj : a.descriptor = b.descriptor ↔ a = b :=
    ⟨fun h => (eq_of_descriptor_append a b ha hb (congrArg (· ++ "") h)).1, congrArg descriptor⟩
  exact ⟨hinj, fun _ => expansionText_eq_iff.trans hinj⟩

/-- Struct names with quotes, commas and braces in them, but not closed by
themselves. -/
theorem descriptor_eq_iff_quoted :
    let a := fn (.tuple []) (.struct "A\", \"B")
    let b := fn (.tuple []) (.struct "A\"\x7d), box(")
    a.Honest ∧ b.Honest ∧ a.descriptor ≠ b.descriptor
      ∧ ∀ m : Invocation, expansionText m a ≠ expansionText m b := by
  have ha : (fn (.tuple []) (.struct "A\", \"B")).Honest := by decide +kernel
  have hb : (fn (.tuple []) (.struct "A\"\x7d), box(")).Honest := by decide +kernel
  have hne : fn (.tuple []) (.struct "A\", \"B") ≠ fn (.tuple []) (.struct "A\"\x7d), box(") := by
    decide +kernel
  have h := descriptor_eq_iff _ _ ha hb
  exact ⟨ha, hb, mt h.1.mp hne, fun m => mt (h.2 m).mp hne⟩

/-- A struct whose name has the description of a second one in it. -/
def forged : Ty := .tuple [.struct "A\" \x7d), box(ty::StructType\x7b .name = \"B"]

/-- **A forged name.** One struct passes for two: both types are read from data,
they are not the same, but they have one descriptor, and whatever is expanded
where one is expected is taken for the other. -/
theorem forged_descriptor :
    let pair : Ty := .tuple [.struct "A", .struct "B"]
    decode [] forged.encode = .ok forged ∧ decode [] pair.encode = .ok pair ∧ forged ≠ pair
      ∧ forged.descriptor = pair.descriptor
      ∧ ∀ m : Invocation, expansionText m forged = expansionText m pair := by
  have hsame : forged.descriptor = (Ty.tuple [.struct "A", .struct "B"]).descriptor := by
    decide +kernel
  exact ⟨decode_encode _, decode_encode _, by decide +kernel, hsame,
    fun _ => expansionText_eq_iff.mpr hsame⟩

end Stagewise.Ty
