/-!
# Places in the source, and names written there

A diagnostic points at the place it is about, so every tree the compiler reads
carries a `Span` on each node, and an identifier travels with the span where it
was written. A declaration that no source text introduces, such as a built-in,
sits at `Span.nowhere`.

Two names are the same name when their texts agree; the span says where a
mention is, not what it refers to. Tables are therefore keyed by the text.
-/

namespace Stagewise

/-- **A stretch of source text**: the line and column where it starts, and its
length. -/
structure Span where
  /-- The line, counted from one. -/
  line : Nat
  /-- The column, counted from one. -/
  col : Nat
  /-- How much text the span covers. -/
  len : Nat
  deriving DecidableEq, Repr

namespace Span

/-- The span of what was not written anywhere. -/
def nowhere : Span := ⟨0, 0, 0⟩

/-- How a message names the place: the line and the column, without the
length. -/
def text (s : Span) : String := toString s.line ++ ":" ++ toString s.col

end Span

/-- **A name as written**: an identifier and the place of this mention of it. -/
structure Name where
  /-- The identifier. -/
  text : String
  /-- Where it was written. -/
  span : Span
  deriving DecidableEq, Repr

/-- The name of something that has no place in the source. -/
def Name.unplaced (text : String) : Name := ⟨text, .nowhere⟩

end Stagewise
