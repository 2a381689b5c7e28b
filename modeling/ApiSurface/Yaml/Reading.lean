import ApiSurface.KeyedList
import ApiSurface.Yaml.Scalar.Block
import ApiSurface.Yaml.Scalar.Plain
import ApiSurface.Yaml.Tag

/-!
# Reading tokens

How a document is cut into tokens. A key has no mark of its own in front, so a place where one may
have begun is remembered until its colon comes: it must come on the same line and not too far
behind. Then the mark for the key, and one for the mapping if it is the first of its pairs, are
put in at that place. Outside of brackets blocks begin where the indentation grows and end where
it shrinks.
-/

namespace ApiSurface.Yaml

/-- A place where a key may have begun. -/
structure PossibleKey where
  start : Glyph
  /-- The number of tokens in front of it. -/
  number : Nat
  /-- Nothing but a key can stand there. -/
  required : Bool

/-- The number of bytes that a key and the white space behind it may have. -/
def keyLimit : Nat := 1024

/-- Whether the colon of a key can no longer come. -/
def PossibleKey.isStale (k : PossibleKey) (here : Glyph) : Bool :=
  k.start.line < here.line || k.start.offset + keyLimit < here.offset

/-- What was read of a document. -/
structure Reading where
  tokens : Array Token
  /-- The columns of the blocks that are open, innermost first. -/
  columns : List Nat
  /-- The key that may have begun between the innermost brackets. -/
  key : Option PossibleKey
  /-- The keys that may have begun between each of the brackets around them, and outside of all
  brackets. -/
  outerKeys : List (Option PossibleKey)
  /-- Whether a key can begin here. -/
  keyAllowed : Bool
  /-- The numbers of the anchors so far. -/
  anchors : List (String × Nat)

namespace Reading

/-- Nothing was read. -/
def start : Reading := ⟨#[], [], none, [], true, []⟩

/-- Whether a bracket is open. -/
def inFlow (s : Reading) : Bool := !s.outerKeys.isEmpty

/-- The column from which on a line belongs to the innermost block as part of a value. -/
def floor (s : Reading) : Nat := s.columns.head?.elim 0 (· + 1)

def push (s : Reading) (t : Token) : Reading := { s with tokens := s.tokens.push t }

def allow (s : Reading) (allowed : Bool) : Reading := { s with keyAllowed := allowed }

/-- Put a token behind the first `number` tokens. -/
def insert (s : Reading) (number : Nat) (t : Token) : Reading :=
  { s with tokens := s.tokens.insertIdxIfInBounds number t }

/-! ### Blocks -/

/-- Open a block at a column, with its token behind the first `number` tokens. A block that is open
at this column goes on. -/
def openBlock (s : Reading) (column number : Nat) (t : Token) : Reading :=
  if s.inFlow ∨ column < s.floor then s
  else { s.insert number t with columns := column :: s.columns }

/-- Close the blocks that begin at a column or behind it. -/
def closeBlocks (s : Reading) (column : Nat) : Reading :=
  if s.inFlow then s
  else
    let closed := s.columns.takeWhile (column ≤ ·)
    { s with
      columns := s.columns.drop closed.length
      tokens := s.tokens ++ Array.replicate closed.length Token.blockEnd }

/-! ### Keys -/

/-- Give up a key unless it is required. -/
def giveUp : Option PossibleKey → Option (Option PossibleKey)
  | some k => if k.required then none else some none
  | none => some none

/-- No key has begun any more. -/
def dropKey? (s : Reading) : Option Reading := do
  some { s with key := ← giveUp s.key }

/-- A key may begin here. It is required where a block goes on. -/
def saveKey? (s : Reading) (here : Glyph) : Option Reading :=
  if s.keyAllowed then do
    let s ← s.dropKey?
    let required := !s.inFlow && s.columns.head? = some here.column
    some { s with key := some ⟨here, s.tokens.size, required⟩ }
  else some s

/-! ### Tokens -/

/-- A document ends. -/
def endDocument? (s : Reading) : Option Reading := do
  some ((← (s.closeBlocks 0).dropKey?).allow false)

/-- A bracket opens. -/
def openFlow? (s : Reading) (here : Glyph) (t : Token) : Option Reading := do
  let s ← s.saveKey? here
  some { s.push t with key := none, outerKeys := s.key :: s.outerKeys, keyAllowed := true }

/-- A bracket closes. -/
def closeFlow? (s : Reading) (t : Token) : Option Reading := do
  let s ← s.dropKey?
  let s :=
    match s.outerKeys with
    | k :: r => { s with key := k, outerKeys := r }
    | [] => s
  some ((s.push t).allow false)

def comma? (s : Reading) : Option Reading := do
  some (((← s.dropKey?).push .comma).allow true)

/-- Open a block of the given kind here, for a mark that cannot follow something on its line. -/
def openHere? (s : Reading) (here : Glyph) (t : Token) : Option Reading :=
  if s.inFlow ∨ s.keyAllowed then some (s.openBlock here.column s.tokens.size t) else none

def dash? (s : Reading) (here : Glyph) : Option Reading := do
  let s ← (← s.openHere? here .blockSequence).dropKey?
  some ((s.push .dash).allow true)

/-- A question mark in front of a key. -/
def key? (s : Reading) (here : Glyph) : Option Reading := do
  let s ← (← s.openHere? here .blockMapping).dropKey?
  some ((s.push .key).allow !s.inFlow)

/-- The key that a colon here belongs to, if it can still come. A key that is required must not wait
longer. -/
def waiting? (s : Reading) (here : Glyph) : Option (Option PossibleKey) :=
  if s.key.any (·.isStale here) then giveUp s.key else some s.key

/-- A colon in front of a value. -/
def value? (s : Reading) (here : Glyph) : Option Reading := do
  match ← s.waiting? here with
  | some k =>
    let s := (s.insert k.number .key).openBlock k.start.column k.number .blockMapping
    some { s.push .value with key := none, keyAllowed := false }
  | none =>
    let s ← { s with key := none }.openHere? here .blockMapping
    some ((s.push .value).allow !s.inFlow)

/-- A token that may be a key or stand in front of one. -/
def keep? (s : Reading) (here : Glyph) (t : Token) : Option Reading := do
  some (((← s.saveKey? here).push t).allow false)

/-- An anchor. Its number is the number of the names that were used for anchors before. -/
def anchor? (s : Reading) (here : Glyph) (name : String) : Option Reading :=
  let number := s.anchors.length
  { s with anchors := KeyedList.insert name number s.anchors }.keep? here (.anchor number)

/-- A reference to an anchor, which must have been set. -/
def reference? (s : Reading) (here : Glyph) (name : String) : Option Reading := do
  s.keep? here (.reference (← KeyedList.get? s.anchors name))

/-- A plain scalar. A key can begin behind it when a line ends there. -/
def plainScalar? (s : Reading) (here : Glyph) (l : List Glyph) : Option (Reading × List Glyph) := do
  let p ← plain? s.inFlow s.floor l
  some ((← s.keep? here (.scalar .plain p.text)).allow p.endsLine, p.rest)

/-- A block scalar behind its first character. -/
def blockScalar? (s : Reading) (style : ScalarStyle) (l : List Glyph) :
    Option (Reading × List Glyph) := do
  let (text, rest) ← block? (style = .folded) s.floor l
  some (((← s.dropKey?).push (.scalar style text)).allow true, rest)

/-- A scalar between quotes behind the first of them. -/
def quotedScalar? (s : Reading) (here : Glyph) (style : ScalarStyle)
    (quoted : Option (List Piece × List Glyph)) : Option (Reading × List Glyph) := do
  let (pieces, rest) ← quoted
  some (← s.keep? here (.scalar style (Piece.text pieces)), rest)

/-- The token that begins with a character, when no document starts or ends there. -/
def token? (s : Reading) (here : Glyph) (r : List Glyph) : Option (Reading × List Glyph) :=
  match here.char with
  | '[' => do some (← s.openFlow? here .flowSequence, r)
  | '\x7b' => do some (← s.openFlow? here .flowMapping, r)
  | ']' => do some (← s.closeFlow? .flowSequenceEnd, r)
  | '\x7d' => do some (← s.closeFlow? .flowMappingEnd, r)
  | ',' => do some (← s.comma?, r)
  | '*' => do
    let (name, rest) ← anchorName? r
    some (← s.reference? here name, rest)
  | '&' => do
    let (name, rest) ← anchorName? r
    some (← s.anchor? here name, rest)
  | '!' => do
    let (t, rest) ← tag? s.inFlow r
    some (← s.keep? here t, rest)
  | '\'' => s.quotedScalar? here .singleQuoted (singleQuoted r)
  | '"' => s.quotedScalar? here .doubleQuoted (doubleQuoted r)
  | c =>
    if c = '-' ∧ Glyph.endsWord r then do some (← s.dash? here, r)
    else if c = '?' ∧ (s.inFlow ∨ Glyph.endsWord r) then do some (← s.key? here, r)
    else if c = ':' ∧ (s.inFlow ∨ Glyph.endsWord r) then do some (← s.value? here, r)
    else if c = '|' ∧ !s.inFlow then s.blockScalar? .literal r
    else if c = '>' ∧ !s.inFlow then s.blockScalar? .folded r
    else if startsPlain s.inFlow here r then s.plainScalar? here (here :: r)
    else none

/-- The next tokens: those for what ends in front of a character and the one that begins with
it. -/
def step? (s : Reading) (here : Glyph) (r : List Glyph) : Option (Reading × List Glyph) := do
  let s := s.closeBlocks (here.column + 1)
  if here.column = 0 ∧ here.char = '%' then
    let s ← s.endDocument?
    let (t, rest) ← directive? r
    some (s.push t, rest)
  else
    match Glyph.boundary? (here :: r) with
    | some c =>
      let s ← s.endDocument?
      some (s.push (if c = '-' then .documentStart else .documentEnd), r.drop 2)
    | none => s.token? here r

/-- Go on to the next token: over spaces, line breaks, comments, and a mark of the byte order at
the start of a line. Tabs count as spaces between brackets, and elsewhere where no key can begin.
Outside of brackets a key can begin on a new line. -/
def skipTo (s : Reading) (inComment : Bool) : List Glyph → Reading × List Glyph
  | [] => (s, [])
  | g :: r =>
    if g.isBreak then (if s.inFlow then s else s.allow true).skipTo false r
    else if inComment ∨ g.char = '#' then s.skipTo true r
    else if g.char = ' ' ∨ (g.char = '\t' ∧ (s.inFlow ∨ !s.keyAllowed)) ∨
        (g.char = '\ufeff' ∧ g.column = 0) then s.skipTo false r
    else (s, g :: r)

/-- Read to the end. Each step takes a character at least, so as many steps as there are
characters suffice. -/
def readFrom? : Nat → Reading → List Glyph → Option Reading
  | fuel, s, l =>
    match s.skipTo false l with
    | (s, []) => s.endDocument?
    | (s, g :: r) =>
      match fuel with
      | 0 => none
      | fuel + 1 => do
        let (s, rest) ← s.step? g r
        readFrom? fuel s rest

end Reading

/-- The tokens of a document. -/
def tokens? (text : List Char) : Option (List Token) :=
  let l := Glyph.listOf text
  (Reading.start.readFrom? l.length l).map fun s => s.tokens.toList

end ApiSurface.Yaml
