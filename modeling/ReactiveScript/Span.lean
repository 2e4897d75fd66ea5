/-!
# Positions in a source text

A `Span` is the line and the column of a character, both counted from one; columns count
characters.  A syntax tree carries the span of its first token everywhere, and errors, unit ids
and node ids are made from these.

Lines and columns are meant to be thirty-two-bit numbers.  They are not bounded here, and what is said
about positions is said about texts that have fewer than two to the power of thirty-two lines, and as
few characters on each of them.
-/

set_option autoImplicit false

namespace ReactiveScript

/-- A line and a column, both counted from one. -/
structure Span where
  /-- The line. -/
  line : Nat
  /-- The column, in characters. -/
  col : Nat
  deriving DecidableEq, Repr, Inhabited

namespace Span

/-- The position before anything has been read. -/
def none : Span := ⟨0, 0⟩

/-- Where a position of a nested text lies in the text around it, if the nested text starts at
`origin`: on its first line the columns add up, on every other line it has its own. -/
def within (origin s : Span) : Span :=
  if s.line = 1 then ⟨origin.line, origin.col + s.col - 1⟩
  else ⟨origin.line + s.line - 1, s.col⟩

/-- The words by which a position is reported. -/
def text (s : Span) : String := "line " ++ toString s.line ++ ", column " ++ toString s.col

end Span

end ReactiveScript
