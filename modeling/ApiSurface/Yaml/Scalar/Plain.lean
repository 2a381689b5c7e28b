import ApiSurface.Yaml.Gap

/-!
# Plain scalars

A plain scalar has no quotes, so what follows decides where it ends: the colon of a pair, a
comment, a line that is not indented enough, and between brackets a comma or a bracket.
-/

namespace ApiSurface.Yaml

/-- Characters that end a plain scalar between brackets. -/
def flowEnds : List Char := [',', '[', ']', '\x7b', '\x7d']

/-- Characters that begin something else than a plain scalar. -/
def indicators : List Char :=
  ['-', '?', ':', ',', '[', ']', '\x7b', '\x7d', '#', '&', '*', '!', '|', '>', '\'', '"', '%', '@',
    '\x60']

/-- Whether a plain scalar can begin with a character. Dashes, and outside of brackets question
marks and colons, must have something behind them. -/
def startsPlain (inFlow : Bool) (g : Glyph) (rest : List Glyph) : Bool :=
  (!g.isSpace && !indicators.contains g.char) ||
    (g.char = '-' && !rest.head?.any Glyph.isBlank) ||
    (!inFlow && (g.char = '?' || g.char = ':') && !Glyph.endsWord rest)

/-- A plain scalar that was read. -/
structure Plain where
  text : String
  /-- Whether it is followed by a line break. -/
  endsLine : Bool
  /-- What follows it and the white space behind it. -/
  rest : List Glyph

/-- Whether a plain scalar ends in front of a word: the word is not indented enough, or it begins
a comment or another document. -/
def endsBefore (inFlow : Bool) (floor : Nat) (g : Glyph) (rest : List Glyph) : Bool :=
  (!inFlow && g.column < floor) || g.char = '#' || (Glyph.boundary? (g :: rest)).isSome

/-- The plain scalar that ends in front of some characters. What was read is a text, in reverse,
and the gap behind it. -/
def Plain.endWith (acc : List Char) (gap : Gap) (rest : List Glyph) : Plain :=
  ⟨String.ofList acc.reverse, gap.spansLines, rest⟩

/-- Read a plain scalar on. Lines that go on must be indented by `floor` outside of brackets; a tab
is no indentation. Between brackets a colon in front of a bracket or a comma is refused. -/
def plainFrom (inFlow : Bool) (floor : Nat) (acc : List Char) (gap : Gap) :
    List Glyph → Option Plain
  | [] => some (.endWith acc gap [])
  | g :: r =>
    if g.isSpace then
      if g.char = '\t' ∧ gap.spansLines ∧ g.column < floor then none
      else plainFrom inFlow floor acc (gap.push g.char) r
    else if !gap.isNothing ∧ endsBefore inFlow floor g r then some (.endWith acc gap (g :: r))
    else if inFlow ∧ g.char = ':' ∧ Glyph.startsWith ('?' :: flowEnds) r then none
    else if (g.char = ':' ∧ Glyph.endsWord r) ∨ (inFlow ∧ flowEnds.contains g.char) then
      some (.endWith acc gap (g :: r))
    else plainFrom inFlow floor (g.char :: gap.reversed ++ acc) .nothing r

/-- Read a plain scalar. -/
def plain? (inFlow : Bool) (floor : Nat) (l : List Glyph) : Option Plain :=
  plainFrom inFlow floor [] .nothing l

end ApiSurface.Yaml
