import ApiSurface.Numeral.Integer
import ApiSurface.Yaml.Scalar.Quoted
import ApiSurface.Yaml.Token

/-!
# Names, tags and directives

Names of anchors, the tags that scalars and collections may carry, and the directives in front of
a document, which tell its version and what handles of tags are short for. The readers start
behind the character that announces what they read.
-/

namespace ApiSurface.Yaml

/-- The name of an anchor. -/
def anchorName? (l : List Glyph) : Option (String × List Glyph) :=
  let rest := l.dropWhile fun g => isNameChar g.char
  let name := Glyph.text (l.takeWhile fun g => isNameChar g.char)
  if name = "" then none
  else if Glyph.endsWord rest ∨
      Glyph.startsWith ['?', ':', ',', ']', '\x7d', '%', '@', '\x60'] rest then some (name, rest)
  else none

/-! ### Tags -/

/-- Characters of tags. Commas and brackets count only in tags between angle brackets and in
directives. -/
def isTagChar (bracketed : Bool) (c : Char) : Bool :=
  isNameChar c ||
    [';', '/', '?', ':', '@', '&', '=', '+', '$', '.', '!', '~', '*', '\'', '(', ')'].contains c ||
    (bracketed && [',', '[', ']'].contains c)

/-- The number of octets that belong to the same character and follow the given one. -/
def octetsBehind? (octet : Nat) : Option Nat :=
  if octet < 0x80 then some 0
  else if 0xc0 ≤ octet ∧ octet < 0xe0 then some 1
  else if 0xe0 ≤ octet ∧ octet < 0xf0 then some 2
  else if 0xf0 ≤ octet ∧ octet < 0xf8 then some 3
  else none

/-- The number of octets that follow one of which `owed` were owed before. -/
def octetsOwed? (owed octet : Nat) : Option Nat :=
  if owed = 0 then octetsBehind? octet
  else if 0x80 ≤ octet ∧ octet < 0xc0 then some (owed - 1)
  else none

/-- The characters of a tag. An escape names an octet in hexadecimal digits; it is resolved when it
is an ASCII character, and otherwise it must be one of the octets of a character. -/
def tagChars? (bracketed : Bool) (owed : Nat) : List Glyph → Option (List Char × List Glyph)
  | [] => if owed = 0 then some ([], []) else none
  | p :: r =>
    if p.char = '%' then
      match r with
      | a :: b :: r => do
        let octet := 16 * (← hexDigit? a.char) + (← hexDigit? b.char)
        let owed ← octetsOwed? owed octet
        let (l, rest) ← tagChars? bracketed owed r
        some ((if octet < 0x80 then [Char.ofNat octet] else ['%', a.char, b.char]) ++ l, rest)
      | _ => none
    else if owed ≠ 0 then none
    else if isTagChar bracketed p.char then do
      let (l, rest) ← tagChars? bracketed 0 r
      some (p.char :: l, rest)
    else some ([], p :: r)

/-- The text of a tag behind some characters that belong to it. It must not be empty, and a NUL
ends it. -/
def tagText? (bracketed : Bool) (head : List Char) (l : List Glyph) :
    Option (String × List Glyph) := do
  let (chars, rest) ← tagChars? bracketed 0 l
  if head.isEmpty ∧ rest.length = l.length then none
  else some (String.ofList ((head ++ chars).takeWhile (· ≠ '\x00')), rest)

/-- The letters of a handle and whether an exclamation mark closes it. -/
def handleChars (l : List Glyph) : List Char × Bool × List Glyph :=
  let name := (l.takeWhile fun g => isNameChar g.char).map Glyph.char
  match l.dropWhile fun g => isNameChar g.char with
  | g :: r => if g.char = '!' then (name, true, r) else (name, false, g :: r)
  | [] => (name, false, [])

/-- The handle with the given letters. -/
def handleOf (name : List Char) : String := String.ofList ('!' :: name ++ ['!'])

/-- Split a tag into its handle and its suffix. A tag of one exclamation mark has no handle. -/
def tagParts? (l : List Glyph) : Option ((String × String) × List Glyph) :=
  if Glyph.startsWith ['<'] l then do
    let (text, rest) ← tagText? true [] (l.drop 1)
    if Glyph.startsWith ['>'] rest then some (("", text), rest.drop 1) else none
  else
    match handleChars l with
    | (name, true, r) => do
      let (text, rest) ← tagText? false [] r
      some ((handleOf name, text), rest)
    | (name, false, r) => do
      let (text, rest) ← tagText? false ('!' :: name) r
      let suffix := String.ofList (text.toList.drop 1)
      some (if suffix = "" then ("", "!") else ("!", suffix), rest)

/-- Read a tag. A word must end behind it; between brackets a comma may follow. -/
def tag? (inFlow : Bool) (l : List Glyph) : Option (Token × List Glyph) := do
  let ((handle, suffix), rest) ← tagParts? l
  if Glyph.endsWord rest ∨ (inFlow ∧ Glyph.startsWith [','] rest) then
    some (.tag handle suffix, rest)
  else none

/-! ### Directives -/

/-- A number of a version. It has nine digits at most. -/
def versionNumber? (l : List Glyph) : Option (Nat × List Glyph) := do
  let digits := (l.takeWhile fun g => g.char.isDigit).map Glyph.char
  if 9 < digits.length then none
  else some (← Numeral.natural? digits, l.dropWhile fun g => g.char.isDigit)

/-- The two numbers of a version. -/
def version? (l : List Glyph) : Option (Token × List Glyph) := do
  let (major, l) ← versionNumber? (Glyph.skipBlanks l)
  if Glyph.startsWith ['.'] l then
    let (minor, rest) ← versionNumber? (l.drop 1)
    some (.version major minor, rest)
  else none

/-- A handle and what it is short for. -/
def handle? (l : List Glyph) : Option (Token × List Glyph) := do
  let l := Glyph.skipBlanks l
  if !Glyph.startsWith ['!'] l then none
  else
    let (name, closed, l) := handleChars (l.drop 1)
    if (!closed && !name.isEmpty) || !l.head?.any Glyph.isBlank then none
    else
      let (expansion, rest) ← tagText? true [] (Glyph.skipBlanks l)
      if Glyph.endsWord rest then
        some (.handle (if closed then handleOf name else "!") expansion, rest)
      else none

/-- Read a directive and the end of its line. -/
def directive? (l : List Glyph) : Option (Token × List Glyph) := do
  let rest := l.dropWhile fun g => isNameChar g.char
  let (token, rest) ←
    if !Glyph.endsWord rest then none
    else
      match Glyph.text (l.takeWhile fun g => isNameChar g.char) with
      | "YAML" => version? rest
      | "TAG" => handle? rest
      | _ => none
  some (token, ← Glyph.endLine? rest)

end ApiSurface.Yaml
