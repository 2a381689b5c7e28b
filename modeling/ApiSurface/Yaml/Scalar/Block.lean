import ApiSurface.Yaml.Basic
import ApiSurface.Yaml.Glyph
import ApiSurface.Numeral.Integer

/-!
# Block scalars

A block scalar is a block of indented lines behind a header. Its lines are kept in the literal
style; in the folded style a line break between two lines that do not begin with a blank counts as
a space, or as nothing when empty lines follow it. The header may tell the indentation and what
happens to the line breaks at the end.
-/

namespace ApiSurface.Yaml

/-- What happens to the line breaks at the end. -/
inductive Chomping where
  /-- All are dropped. -/
  | strip
  /-- The one that ends the last line is kept. -/
  | clip
  /-- All are kept. -/
  | keep
deriving DecidableEq, Repr

/-- The header of a block scalar, behind its first character. -/
structure BlockHeader where
  chomping : Chomping
  /-- How much the lines are indented more than their surroundings. -/
  increment : Option Nat

namespace BlockHeader

/-- A sign for the line breaks at the end, if there is one. -/
def takeChomping : List Glyph → Option Chomping × List Glyph
  | [] => (none, [])
  | g :: r =>
    if g.char = '+' then (some .keep, r)
    else if g.char = '-' then (some .strip, r)
    else (none, g :: r)

/-- A digit that tells the indentation, if there is one. The digit zero is refused. -/
def takeIncrement? : List Glyph → Option (Option Nat × List Glyph)
  | [] => some (none, [])
  | g :: r =>
    match Numeral.digit? g.char with
    | some 0 => none
    | some n => some (some n, r)
    | none => some (none, g :: r)

/-- Read a header and the end of its line. The sign may stand on either side of the digit. -/
def read? (l : List Glyph) : Option (BlockHeader × List Glyph) := do
  let (before, l) := takeChomping l
  let (increment, l) ← takeIncrement? l
  let (behind, l) := if before.isNone ∧ increment.isSome then takeChomping l else (none, l)
  let rest ← Glyph.endLine? l
  some (⟨(before <|> behind).getD .clip, increment⟩, rest)

end BlockHeader

/-- The greatest indentation of the empty lines ahead and of the line behind them, which may have
nothing but spaces. A tab is no indentation. -/
def widest? (acc : Nat) : List Glyph → Option Nat
  | [] => some acc
  | g :: r =>
    if g.char = ' ' then widest? (max acc (g.column + 1)) r
    else if g.char = '\t' then none
    else if g.isBreak then widest? acc r
    else some acc

/-- The column at which the lines of a block scalar begin. -/
def blockColumn? (floor : Nat) (increment : Option Nat) (l : List Glyph) : Option Nat :=
  match increment with
  | some n => some (floor - 1 + n)
  | none => (widest? 0 l).map fun w => max w (max floor 1)

/-- What was read of a block scalar. -/
structure BlockText where
  /-- The lines so far, in reverse and without the end of the last one. -/
  chars : List Char
  /-- The line break that ended the last line. -/
  ending : Option Char
  /-- The line breaks of the empty lines behind it, last one first. -/
  empties : List Char
  /-- Whether the last line begins with a blank. -/
  indented : Bool

namespace BlockText

/-- What stands between the last line and one that begins with the given character, in reverse. -/
def joint (folded : Bool) (t : BlockText) (c : Char) : List Char :=
  if folded ∧ t.ending = some '\n' ∧ !t.indented ∧ !isBlank c then
    if t.empties.isEmpty then [' '] else t.empties
  else t.empties ++ t.ending.toList

/-- Begin a line. -/
def startLine (folded : Bool) (t : BlockText) (c : Char) : BlockText :=
  ⟨c :: t.joint folded c ++ t.chars, none, [], isBlank c⟩

/-- The lines with the line breaks at their end that are kept. -/
def text (t : BlockText) (chomping : Chomping) : String :=
  let tail :=
    match chomping with
    | .strip => []
    | .clip => t.ending.toList
    | .keep => t.empties ++ t.ending.toList
  String.ofList (tail ++ t.chars).reverse

/-- Read the lines of a block scalar on, from inside of a line or from the start of one. Lines
begin at the given column. -/
def readFrom (folded : Bool) (column : Nat) (t : BlockText) (inLine : Bool) :
    List Glyph → Option (BlockText × List Glyph)
  | [] => some (t, [])
  | g :: r =>
    if inLine then
      if g.isBreak then readFrom folded column { t with ending := some g.char } false r
      else readFrom folded column { t with chars := g.char :: t.chars } true r
    else if g.isBlank ∧ g.column < column then
      if g.char = '\t' then none else readFrom folded column t false r
    else if g.isBreak then
      readFrom folded column { t with empties := g.char :: t.empties } false r
    else if g.column = column then readFrom folded column (t.startLine folded g.char) true r
    else some (t, g :: r)

end BlockText

/-- Read a block scalar behind its first character: its text and what follows it. -/
def block? (folded : Bool) (floor : Nat) (l : List Glyph) : Option (String × List Glyph) := do
  let (header, l) ← BlockHeader.read? l
  let column ← blockColumn? floor header.increment l
  let (t, rest) ← BlockText.readFrom folded column ⟨[], none, [], false⟩ false l
  some (t.text header.chomping, rest)

end ApiSurface.Yaml
