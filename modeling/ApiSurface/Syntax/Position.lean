import ApiSurface.Syntax.Span

/-!
# Positions

Lines and columns of byte offsets. A line ends behind its line feed; columns count bytes.
-/

namespace ApiSurface.Syntax

/-- A line and a column, both counted from one. -/
structure Position where
  line : Nat
  col : Nat
deriving DecidableEq, Repr, Inhabited

namespace Position

/-- Where every text starts. -/
def start : Position := ⟨1, 1⟩

/-- The position behind a byte. -/
def next (p : Position) (b : UInt8) : Position :=
  if b = 10 then ⟨p.line + 1, 1⟩ else ⟨p.line, p.col + 1⟩

/-- The positions of all offsets from one on, up to the end. -/
def table (acc : Array Position) (p : Position) : List UInt8 → Array Position
  | [] => acc.push p
  | b :: rest => table (acc.push p) (p.next b) rest

/-- The positions of all offsets of a text, that of its end included. -/
def ofText (text : String) : Array Position := table #[] start text.toUTF8.toList

end Position

/-- The span between two offsets of a text with the given positions. -/
def spanBetween (positions : Array Position) (s e : Nat) : Span :=
  let first := positions.getD s .start
  let last := positions.getD e .start
  ⟨s, e, first.line, first.col, last.line, last.col⟩

end ApiSurface.Syntax
