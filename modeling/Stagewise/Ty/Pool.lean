import Stagewise.Ty.Basic

/-!
# Types known by number

During one expansion, types are referred to by their position in a pool. A type
is registered once: asking again gives the number it already has.
-/

namespace Stagewise

/-- **A list of registered types**, each at its number. -/
structure Ty.Pool where
  /-- The types, by number. -/
  types : List Ty := []

/-- The number of a type, registering it at the end if it is new. -/
def Ty.Pool.register (p : Ty.Pool) (t : Ty) : Nat × Ty.Pool :=
  match p.types.findIdx? (· = t) with
  | some i => (i, p)
  | none => (p.types.length, ⟨p.types ++ [t]⟩)

end Stagewise
