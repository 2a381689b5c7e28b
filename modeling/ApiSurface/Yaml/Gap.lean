import ApiSurface.Yaml.Glyph

/-!
# Gaps between words

The white space between two words of a scalar. Blanks of one line are kept. Line breaks are
folded: one of them counts as a space, the others count as they are, and the blanks around them
are dropped.
-/

namespace ApiSurface.Yaml

/-- What stands between two words. Characters are listed last one first. -/
inductive Gap where
  /-- Blanks of one line; no blanks at all are the gap inside a word. -/
  | blanks (l : List Char)
  /-- Line breaks, with the first one apart. -/
  | breaks (first : Char) (more : List Char)
  /-- An escaped line break, which counts as nothing, and the line breaks behind it. -/
  | continued (more : List Char)
deriving DecidableEq, Repr

namespace Gap

/-- The gap inside a word. -/
def nothing : Gap := blanks []

/-- Whether two words are not separated at all. -/
def isNothing : Gap → Bool
  | blanks [] => true
  | _ => false

/-- Whether the words stand on different lines. -/
def spansLines : Gap → Bool
  | blanks _ => false
  | breaks _ _ => true
  | continued _ => true

/-- The text that a gap counts as, last character first. A line feed is folded, another line break
is kept. -/
def reversed : Gap → List Char
  | blanks l => l
  | breaks first more =>
    if first ≠ '\n' then more ++ [first] else if more.isEmpty then [' '] else more
  | continued more => more

/-- The text that a gap counts as. -/
def text (g : Gap) : List Char := g.reversed.reverse

/-- A gap with one more character of white space. -/
def push (c : Char) : Gap → Gap
  | blanks l => if isBreak c then breaks c [] else blanks (c :: l)
  | breaks first more => breaks first (if isBreak c then c :: more else more)
  | continued more => continued (if isBreak c then c :: more else more)

end Gap

/-- A piece of a scalar between quotes, after its escapes are resolved. -/
inductive Piece where
  | char (c : Char)
  /-- White space that is written as itself. -/
  | space (c : Char)
  /-- An escaped line break. -/
  | continuation
deriving DecidableEq, Repr

namespace Piece

/-- The piece that a character makes where nothing is escaped. -/
def ofGlyph (g : Glyph) : Piece := if g.isSpace then space g.char else char g.char

/-- The text of some pieces behind a gap. -/
def fold (gap : Gap) : List Piece → List Char
  | [] => gap.text
  | char c :: r => gap.text ++ c :: fold .nothing r
  | space c :: r => fold (gap.push c) r
  | continuation :: r => gap.text ++ fold (.continued []) r

/-- The text of a scalar. -/
def text (l : List Piece) : String := String.ofList (fold .nothing l)

end Piece

end ApiSurface.Yaml
