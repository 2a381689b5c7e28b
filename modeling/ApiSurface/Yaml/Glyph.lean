/-!
# Characters of a document

A document as a list of characters that know where they stand. Line breaks are made alike on the
way: every line ends with one character, which is a line feed unless it separates lines or
paragraphs by its own meaning.
-/

namespace ApiSurface.Yaml

/-- The characters that a document may hold. -/
def isAllowed (c : Char) : Bool :=
  let n := c.toNat
  c = '\t' || c = '\n' || c = '\r' || (0x20 ≤ n && n ≤ 0x7e) || n = 0x85 ||
    (0xa0 ≤ n && n ≤ 0xfffd) || 0x10000 ≤ n

/-- Blanks inside a line. -/
def isBlank (c : Char) : Bool := c = ' ' || c = '\t'

/-- Characters that end a line. -/
def isBreak (c : Char) : Bool :=
  c = '\n' || c = '\r' || c = '\u0085' || c = '\u2028' || c = '\u2029'

/-- The character that a line break counts as. -/
def breakChar (c : Char) : Char := if c = '\u2028' ∨ c = '\u2029' then c else '\n'

/-- Letters of names: ASCII letters and digits, low lines and hyphens. -/
def isNameChar (c : Char) : Bool := c.isAlphanum || c = '_' || c = '-'

/-- A character of a document and where it stands. -/
structure Glyph where
  char : Char
  /-- The number of bytes in front of it. -/
  offset : Nat
  /-- The number of lines in front of its line. -/
  line : Nat
  /-- The number of characters in front of it on its line. -/
  column : Nat
deriving DecidableEq, Repr

namespace Glyph

/-- The characters of a text that begins at a given place. A carriage return and a line feed
behind it are one line break. -/
def listFrom (offset line column : Nat) : List Char → List Glyph
  | [] => []
  | '\r' :: '\n' :: r => ⟨'\n', offset, line, column⟩ :: listFrom (offset + 2) (line + 1) 0 r
  | c :: r =>
    if Yaml.isBreak c then
      ⟨breakChar c, offset, line, column⟩ :: listFrom (offset + c.utf8Size) (line + 1) 0 r
    else ⟨c, offset, line, column⟩ :: listFrom (offset + c.utf8Size) line (column + 1) r

/-- The characters of a document. -/
def listOf (text : List Char) : List Glyph := listFrom 0 0 0 text

def isBlank (g : Glyph) : Bool := Yaml.isBlank g.char

def isBreak (g : Glyph) : Bool := Yaml.isBreak g.char

/-- White space: blanks and line breaks. -/
def isSpace (g : Glyph) : Bool := g.isBlank || g.isBreak

/-- The text of some characters. -/
def text (l : List Glyph) : String := String.ofList (l.map Glyph.char)

/-- Whether the next character is one of some. -/
def startsWith (chars : List Char) (l : List Glyph) : Bool :=
  l.head?.any fun g => chars.contains g.char

/-- Whether a word can end here: white space follows, or nothing. -/
def endsWord (l : List Glyph) : Bool := l.head?.all isSpace

/-- The character of the mark between documents that stands here: three hyphens or three dots at
the start of a line, and then the end of a word. -/
def boundary? : List Glyph → Option Char
  | a :: b :: c :: r =>
    if a.column = 0 ∧ (a.char = '-' ∨ a.char = '.') ∧ b.char = a.char ∧ c.char = a.char ∧
        endsWord r then some a.char
    else none
  | _ => none

/-- Without blanks in front. -/
def skipBlanks (l : List Glyph) : List Glyph := l.dropWhile isBlank

/-- What follows a line of which only blanks and a comment may be left. -/
def endLine? (l : List Glyph) : Option (List Glyph) :=
  let rest := skipBlanks l
  match if startsWith ['#'] rest then rest.dropWhile (!·.isBreak) else rest with
  | [] => some []
  | g :: r => if g.isBreak then some r else none

end Glyph

end ApiSurface.Yaml
