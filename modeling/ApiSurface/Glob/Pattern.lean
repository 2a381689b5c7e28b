/-!
# Glob patterns

The pieces of a glob pattern and how they are read from text (`Glob.read?`). Patterns are read one
character at a time, each with a look at the next one. A star matches any text; two stars between
separators match any number of directories.
-/

namespace ApiSurface.Glob

/-- A piece of a pattern. -/
inductive Piece where
  | literal (c : Char)
  /-- Any one byte. -/
  | any
  /-- Any text. -/
  | star
  /-- Any number of directories at the start. -/
  | leading
  /-- Something below, at any depth, at the end. -/
  | trailing
  /-- Any number of directories between two names. -/
  | between
  /-- One byte of the ranges, or one outside of them. -/
  | charset (negated : Bool) (ranges : List (Char × Char))
  | oneOf (branches : List (List Piece))
deriving Repr, Inhabited

/-- The branches of an alternation that are read already, last one first, and the pieces of the
pattern around it, last one first. -/
structure Outer where
  branches : List (List Piece)
  pieces : List Piece
deriving Inhabited

/-- A character class that is being read. -/
structure ClassReader where
  negated : Bool
  /-- The ranges so far, last one first. -/
  ranges : List (Char × Char)
  /-- Nothing but the mark of negation was read. -/
  atStart : Bool
  /-- A dash was read that may make a range of the last character. -/
  afterDash : Bool
deriving Inhabited

/-- Whether a class has just begun, so that a mark of negation may follow. -/
def ClassReader.isFresh (k : ClassReader) : Bool := k.atStart && !k.negated

/-- What the next character is for. -/
inductive Expecting where
  /-- Anything. -/
  | piece
  /-- The character behind a backslash. -/
  | escaped
  /-- The second of two stars; the character before the first one decides what they mean. -/
  | secondStar (before : Option Char)
  /-- A separator that belongs to two stars. -/
  | separator
  /-- A character class from its first character on. -/
  | inClass (r : ClassReader)
deriving Inhabited

/-- A pattern that is being read. -/
structure Reader where
  /-- Pieces at the innermost level, last one first. -/
  pieces : List Piece
  /-- Open alternations, innermost first. -/
  outer : List Outer
  expecting : Expecting
  /-- The character that was read last. -/
  last : Option Char
deriving Inhabited

namespace Reader

/-- Nothing was read. -/
def start : Reader := ⟨[], [], .piece, none⟩

/-- Add a piece. -/
def push (r : Reader) (p : Piece) : Reader :=
  { r with pieces := p :: r.pieces, expecting := .piece }

/-- Whether an alternation is open. -/
def isNested (r : Reader) : Bool := !r.outer.isEmpty

/-- Begin an alternation. -/
def openBranches (r : Reader) : Reader :=
  { r with pieces := [], outer := ⟨[], r.pieces⟩ :: r.outer }

/-- Begin the next branch, or add a comma outside of alternations. -/
def comma (r : Reader) : Reader :=
  match r.outer with
  | [] => r.push (.literal ',')
  | o :: rest =>
    { r with pieces := [], outer := { o with branches := r.pieces.reverse :: o.branches } :: rest }

/-- End an alternation. -/
def closeBranches (r : Reader) : Option Reader :=
  match r.outer with
  | [] => none
  | o :: rest =>
    some { r with
      pieces := .oneOf (r.pieces.reverse :: o.branches).reverse :: o.pieces
      outer := rest }

/-- Two stars without a meaning of their own. -/
def twoStars (r : Reader) : Reader := (r.push .star).push .star

/-- Put a piece for two stars in the place of the separator before them. Directories at the start
stand for further ones too, and so does anything below. -/
def replaceLast (r : Reader) (p : Piece) : Reader :=
  match r.pieces with
  | .leading :: _ => r
  | .trailing :: _ => r
  | _ :: rest => { r with pieces := p :: rest }
  | [] => r

/-- Two stars, given what stands before and after them. They stand for directories only as a
whole name: behind a separator or at the start of a pattern or branch, and before a separator or
at the end of a pattern or branch. -/
def stars (r : Reader) (before next : Option Char) : Reader :=
  let r := { r with expecting := .piece }
  if r.pieces.isEmpty then
    match next with
    | none => r.push .leading
    | some c => if c = '/' then { r.push .leading with expecting := .separator } else r.twoStars
  else if before = some '/' ∨ (r.isNested ∧ (before = some ',' ∨ before = some '{')) then
    match next with
    | none => r.replaceLast .trailing
    | some c =>
      if r.isNested ∧ (c = ',' ∨ c = '}') then r.replaceLast .trailing
      else if c = '/' then { r.replaceLast .between with expecting := .separator }
      else r.twoStars
  else r.twoStars

/-- The next character of a class; `none` when a range runs backwards. -/
def classStep (r : Reader) (k : ClassReader) (c : Char) : Option Reader :=
  let go (k : ClassReader) : Option Reader :=
    some { r with expecting := .inClass { k with atStart := false } }
  let extend (k : ClassReader) : Option Reader :=
    match k.ranges with
    | (first, _) :: rest =>
      if c < first then none
      else go { k with ranges := (first, c) :: rest, afterDash := false }
    | [] => none
  if c = ']' ∧ !k.atStart then
    let ranges := if k.afterDash then ('-', '-') :: k.ranges else k.ranges
    some (r.push (.charset k.negated ranges.reverse))
  else if c = ']' then go { k with ranges := (c, c) :: k.ranges }
  else if c = '-' ∧ !k.atStart ∧ !k.afterDash then go { k with afterDash := true }
  else if k.afterDash then extend k
  else go { k with ranges := (c, c) :: k.ranges }

/-- Begin a class. -/
def openClass (r : Reader) : Reader := { r with expecting := .inClass ⟨false, [], true, false⟩ }

/-- Read a character, with a look at the next one. -/
def step (r : Reader) (c : Char) (next : Option Char) : Option Reader :=
  let before := r.last
  let r := { r with last := some c }
  match r.expecting with
  | .escaped => some (r.push (.literal c))
  | .separator => some { r with expecting := .piece }
  | .secondStar before => some (r.stars before next)
  | .inClass k =>
    if (c = '!' ∨ c = '^') ∧ k.isFresh then
      some { r with expecting := .inClass { k with negated := true } }
    else r.classStep k c
  | .piece =>
    if c = '?' then some (r.push .any)
    else if c = '*' then
      if next = some '*' then some { r with expecting := .secondStar before }
      else some (r.push .star)
    else if c = '[' then some r.openClass
    else if c = '{' then some r.openBranches
    else if c = '}' then r.closeBranches
    else if c = ',' then some r.comma
    else if c = '\\' then some { r with expecting := .escaped }
    else some (r.push (.literal c))

/-- Read characters to the end. -/
def run (r : Reader) : List Char → Option Reader
  | [] => some r
  | c :: rest => (r.step c rest.head?).bind fun r => run r rest

/-- The pieces of a pattern that was read to its end; `none` when a class, an alternation or an
escape is still open. -/
def finish (r : Reader) : Option (List Piece) :=
  match r.expecting, r.outer with
  | .piece, [] => some r.pieces.reverse
  | _, _ => none

end Reader

/-- Read a pattern. -/
def read? (pattern : String) : Option (List Piece) :=
  (Reader.start.run pattern.toList).bind Reader.finish

end ApiSurface.Glob
