import Stagewise.Declaration.Builtin
import Stagewise.Failure.Diagnostic
import Stagewise.Source.Tree

/-!
# The declarations of a module

A module's functions and constants stand beside the built-ins in one list, and a
name belongs to at most one of them. `Declarations` carries that fact, so that a
name can stand for a declaration everywhere: in scopes, in checked trees, in the
tables of the analysis.

`Declarations.collect` is the only way in. It reads the declarations one after
the other into a `Register`, which keeps the position of every name and reports
those that were taken. If there is nothing to report then names are distinct,
and the register becomes the index of the declarations. Otherwise the module is
refused, with one diagnostic for every declaration whose name was taken before
it.
-/

namespace Stagewise

/-- **A top-level declaration.** -/
inductive Declaration where
  | builtin (b : Builtin)
  | source (item : Source.Item)

namespace Declaration

/-- The name of a declaration. -/
def name : Declaration → String
  | .builtin b => b.name
  | .source item => item.name.text

/-- Where the name of a declaration is written; a built-in's is written
nowhere. -/
def span : Declaration → Span
  | .builtin _ => .nowhere
  | .source item => item.name.span

/-- Whether a declaration is a function of the module. -/
def isFunction : Declaration → Bool
  | .builtin _ => false
  | .source item => item.isFunction

/-- Whether a declaration is a built-in. -/
def isBuiltin : Declaration → Bool
  | .builtin _ => true
  | .source _ => false

end Declaration

/-! ## The register of names -/

/-- **A register of names**, filled while declarations are read one after the
other. -/
structure Register where
  /-- Where each name stood first. -/
  positions : List (String × Nat) := []
  /-- A diagnostic for every declaration whose name stood further up. -/
  errors : List Diagnostic := []

namespace Register

/-- Read the declaration at a position of a list. A name that is taken stays
with the first that took it, and the diagnostic points there. -/
def read (entries : List Declaration) (r : Register) (d : Declaration × Nat) : Register :=
  match r.positions.lookup d.1.name with
  | some first =>
    { r with
      errors := r.errors ++
        [.duplicate d.1.name ((entries[first]?).elim .nowhere Declaration.span) d.1.span] }
  | none => { r with positions := (d.1.name, d.2) :: r.positions }

/-- **The register of a list of declarations.** -/
def of (entries : List Declaration) : Register := entries.zipIdx.foldl (read entries) {}

/-- **A register is that of the declarations read so far**: it has the first
position of every name, and there are no errors exactly if no name has a
second. -/
structure Holds (r : Register) (entries : List Declaration) : Prop where
  positions : ∀ x, r.positions.lookup x = entries.findIdx? (·.name = x)
  errors : r.errors = [] ↔ (entries.map Declaration.name).Nodup

theorem Holds.read {r : Register} {earlier : List Declaration} (h : r.Holds earlier)
    (entries : List Declaration) (d : Declaration) :
    (r.read entries (d, earlier.length)).Holds (earlier ++ [d]) := by
  have hidx (x : String) : (earlier ++ [d]).findIdx? (·.name = x)
      = (earlier.findIdx? (·.name = x)).or (if d.name = x then some earlier.length else none) := by
    rw [List.findIdx?_append, List.findIdx?_singleton]
    by_cases hx : d.name = x <;> simp [hx]
  have hnodup : ((earlier ++ [d]).map Declaration.name).Nodup ↔
      (earlier.map Declaration.name).Nodup ∧ ∀ e ∈ earlier, e.name ≠ d.name := by
    simp [List.nodup_append]
  unfold Register.read
  dsimp only
  cases hd : r.positions.lookup d.name with
  | some first =>
    rw [h.positions, List.findIdx?_eq_some_iff_getElem] at hd
    obtain ⟨hlt, hname, -⟩ := hd
    refine ⟨fun x => ?_, ?_⟩
    · rw [hidx, ← h.positions]
      by_cases hx : d.name = x
      · have hsome : (r.positions.lookup x).isSome = true := by
          rw [h.positions, List.findIdx?_isSome, List.any_eq_true]
          exact ⟨_, List.getElem_mem hlt, hx ▸ hname⟩
        obtain ⟨i, hi⟩ := Option.isSome_iff_exists.mp hsome
        rw [hi, Option.some_or]
      · rw [if_neg hx, Option.or_none]
    · refine iff_of_false (by simp) fun hall => ?_
      exact (hnodup.mp hall).2 _ (List.getElem_mem hlt) (of_decide_eq_true hname)
  | none =>
    rw [h.positions, List.findIdx?_eq_none_iff] at hd
    refine ⟨fun x => ?_, ?_⟩
    · rw [hidx, ← h.positions, List.lookup_cons]
      by_cases hx : d.name = x
      · have hnone : r.positions.lookup x = none := by
          rw [h.positions, List.findIdx?_eq_none_iff]
          exact hx ▸ hd
        simp [hx, hnone]
      · have hbeq : (x == d.name) = false := beq_eq_false_iff_ne.mpr fun heq => hx heq.symm
        simp [hx, hbeq]
    · have hfresh : ∀ e ∈ earlier, e.name ≠ d.name := fun e he => of_decide_eq_false (hd e he)
      rw [hnodup]
      exact h.errors.trans ⟨fun hs => ⟨hs, hfresh⟩, fun hs => hs.1⟩

theorem Holds.foldl {r : Register} {earlier : List Declaration} (h : r.Holds earlier)
    (entries ds : List Declaration) :
    ((ds.zipIdx earlier.length).foldl (Register.read entries) r).Holds (earlier ++ ds) := by
  induction ds generalizing earlier r with
  | nil => simpa using h
  | cons d ds ih =>
    have hnext := ih (h.read entries d)
    rwa [List.length_append, List.length_singleton, List.append_assoc] at hnext

theorem holds_nil : Holds {} [] := ⟨fun _ => rfl, by simp⟩

/-- **The register of a list holds its names.** -/
theorem holds_of (entries : List Declaration) : (of entries).Holds entries :=
  holds_nil.foldl entries entries

/-- **There are no errors exactly if names are distinct.** -/
theorem isEmpty_errors_iff (entries : List Declaration) :
    (of entries).errors.isEmpty = true ↔ (entries.map Declaration.name).Nodup :=
  List.isEmpty_iff.trans (holds_of entries).errors

end Register

/-! ## Declarations -/

/-- **Declarations with distinct names.** -/
structure Declarations where
  /-- The declarations in order, the built-ins first. -/
  entries : List Declaration
  /-- The position of each name. -/
  positions : List (String × Nat)
  /-- No name is declared twice. -/
  distinct : (entries.map Declaration.name).Nodup
  /-- The position of a name is where it is declared. -/
  positioned : ∀ x, positions.lookup x = entries.findIdx? (·.name = x)

namespace Declarations

/-- The built-ins and then the module. -/
def entriesOf (m : Source.Module) : List Declaration :=
  Builtin.all.map .builtin ++ m.map .source

/-- Declarations whose register has no errors. -/
def ofEntries (entries : List Declaration) (h : (Register.of entries).errors.isEmpty) :
    Declarations where
  entries := entries
  positions := (Register.of entries).positions
  distinct := (Register.isEmpty_errors_iff entries).mp h
  positioned := (Register.holds_of entries).positions

/-- **The declarations of a module**, unless names clash. -/
def collect (m : Source.Module) : Except (List Diagnostic) Declarations :=
  if h : (Register.of (entriesOf m)).errors.isEmpty then
    .ok (ofEntries (entriesOf m) h)
  else .error (Register.of (entriesOf m)).errors

/-- How many declarations there are. -/
def count (ds : Declarations) : Nat := ds.entries.length

/-- The names, in order. -/
def names (ds : Declarations) : List String := ds.entries.map Declaration.name

/-- The position of a name. -/
def index? (ds : Declarations) (name : String) : Option Nat := ds.positions.lookup name

/-- The declaration at a position. -/
def get? (ds : Declarations) (i : Nat) : Option Declaration := ds.entries[i]?

/-- The declaration of a name. -/
def find? (ds : Declarations) (name : String) : Option Declaration := ds.index? name >>= ds.get?

/-- Whether a name is declared. -/
def declares (ds : Declarations) (name : String) : Bool := (ds.index? name).isSome

end Declarations

end Stagewise
