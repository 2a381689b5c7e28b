/-!
# Spans

Where a piece of source text lies: byte offsets counted from zero, lines and columns from one.
-/

namespace ApiSurface

/-- A stretch of source text. The end is exclusive. -/
structure Span where
  startByte : Nat
  endByte : Nat
  startLine : Nat
  startCol : Nat
  endLine : Nat
  endCol : Nat
deriving DecidableEq, Repr, Inhabited

namespace Span

/-- The components in the order in which spans are compared. -/
def key (s : Span) : List Nat :=
  [s.startByte, s.endByte, s.startLine, s.startCol, s.endLine, s.endCol]

/-- Spans are ordered lexicographically by `key`. -/
def compare (a b : Span) : Ordering :=
  (Ord.compare a.startByte b.startByte).then <|
  (Ord.compare a.endByte b.endByte).then <|
  (Ord.compare a.startLine b.startLine).then <|
  (Ord.compare a.startCol b.startCol).then <|
  (Ord.compare a.endLine b.endLine).then <|
  Ord.compare a.endCol b.endCol

instance : Ord Span := ⟨Span.compare⟩

/-- Whether the byte lies in the span. -/
def contains (s : Span) (byte : Nat) : Bool := s.startByte ≤ byte && byte < s.endByte

/-- Whether the other span lies completely inside this one. -/
def encloses (s t : Span) : Bool := s.startByte ≤ t.startByte && t.endByte ≤ s.endByte

/-- A position is shown as line and column of the start. -/
def render (s : Span) : String := toString s.startLine ++ ":" ++ toString s.startCol

end Span

/-- Facts are listed by file and then by span. -/
def compareLocation (a b : String × Span) : Ordering :=
  (compare a.1 b.1).then (compare a.2 b.2)

/-- The order of `compareLocation` as the test that a stable sort takes. -/
def locationLE (a b : String × Span) : Bool := compareLocation a b != .gt

end ApiSurface
